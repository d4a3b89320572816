import FogNet.System.OnePlan

namespace FogNetModel

open CentralizedCoordinator Kernel

/-- No host stands elsewhere than at the start. -/
def Still (position : Device → Coord) (moments : List Moment) : Prop :=
  ∀ moment ∈ moments, moment.met.position = position

def steadily (position : Device → Coord) (_ : Config) : Label → Prop
  | .move elsewhere => elsewhere = position
  | _ => True

/-- While nobody moves, every report tells where its host stands. -/
structure Steady (net : FogNetwork) (position : Device → Coord) (config : Config) : Prop where
  wellformed : Wellformed net config
  still : config.state.position = position
  stored : ∀ saved ∈ config.state.participant, ∃ device : Device, saved.ctx = device.report config.state
  flying : ∀ ctx, .sync ctx ∈ config.pending → ∃ device : Device, net.Holds device ∧
    device.Mobile ∧ ctx = device.report config.state

/-- All rounds send one plan, every link is one of its pairs, and those of its pairs whose hosts are
    within reach are linked. -/
structure Converged (net : FogNetwork) (position : Device → Coord) (moments : List Moment)
    (sim : Simulation) : Prop where
  constant : ∀ round ∈ moments, round.event = .coordinatorTick →
    round.met.participant.length = net.numHosts →
      round.met.firstFitPlan net = sim.state.firstFitPlan net
  sent : ∀ names, .planSent names ∈ sim.trace → names = sim.state.firstFitPlan net
  planned : ∀ sender receiver, (sender, receiver) ∈ linkSet sim.state.gates →
    fullNames (sender, receiver) ∈ sim.state.firstFitPlan net
  linked : ∀ sender receiver, fullNames (sender, receiver) ∈ sim.state.firstFitPlan net →
    ¬ outOfReach (position sender) (position receiver) → (sender, receiver) ∈ linkSet sim.state.gates

end FogNetModel

namespace FogNetProof.Runs

open FogNetModel FogNetModel.CentralizedCoordinator Kernel Matching FogNetProof.Links FogNetProof.Names
  FogNetProof.Plans FogNetProof.Rounds

theorem registered_full {net : FogNetwork} {participant : List SavedMsg}
    (registered : Registered net participant) (full : participant.length = net.numHosts) {device : Device}
    (held : net.Holds device) (mobile : device.Mobile) :
    device.getFullName ∈ participant.map SavedMsg.name := by
  have known : participant.map SavedMsg.name ⊆ mobileNames net := by
    intro name member
    obtain ⟨saved, stored, rfl⟩ := List.mem_map.mp member
    exact mem_mobileNames.mpr (registered.named saved stored ▸ registered.reported saved stored)
  have size : (mobileNames net).length = net.numHosts := by simp [mobileNames, vector]
  have same := (registered.distinct.subperm known).perm_of_length_le (by rw [List.length_map, size, full])
  exact same.mem_iff.mpr (mem_mobileNames.mpr ⟨device, held, mobile, rfl⟩)

/-- A report that says nothing new leaves a full store as it is. -/
theorem handleSync_current {net : FogNetwork} {config : Config} {position : Device → Coord}
    (known : Steady net position config) (full : config.state.participant.length = net.numHosts)
    {ctx : ContextSync} (flying : .sync ctx ∈ config.pending) :
    handleSync config.state.participant ctx = config.state.participant := by
  have registered := known.wellformed.registered
  obtain ⟨device, held, mobile, rfl⟩ := known.flying ctx flying
  obtain ⟨saved, stored, isName⟩ := List.mem_map.mp (registered_full registered full held mobile)
  obtain ⟨other, told⟩ := known.stored saved stored
  have sameName : other.getFullName = device.getFullName := by
    rw [← isName, registered.named saved stored, told]
    rfl
  have isSaved : saved = ⟨device.getFullName, device.report config.state⟩ := by
    rw [← isName, ← getFullName_injective sameName, ← told]
  apply setNamed_of_mem registered.distinct
  rw [isSaved] at stored
  exact stored

theorem problem_congr {before after : State} (store : after.participant = before.participant)
    (position : after.position = before.position) (net : FogNetwork) :
    after.problem net = before.problem net := by
  rw [State.problem, State.problem, store, position]

theorem report_congr {before after : State} (position : after.position = before.position)
    (device : Device) : device.report after = device.report before := by
  rw [Device.report, Device.report, position]

theorem steady_keep {net : FogNetwork} {position : Device → Coord} {before after : Config}
    (known : Steady net position before) (wellformed : Wellformed net after)
    (placed : after.state.position = before.state.position)
    (store : after.state.participant = before.state.participant)
    (flying : ∀ ctx, .sync ctx ∈ after.pending → .sync ctx ∈ before.pending) :
    Steady net position after where
  wellformed := wellformed
  still := placed.trans known.still
  stored := by
    intro saved member
    simp only [report_congr placed]
    exact known.stored saved (store ▸ member)
  flying := by
    intro ctx waits
    simp only [report_congr placed]
    exact known.flying ctx (flying ctx waits)

/-- While nobody moves the store, once full, stays the same. -/
theorem steady_effect {net : FogNetwork} {position : Device → Coord} {before after : Config} {label : Label}
    (known : Steady net position before) (permitted : steadily position before label)
    (effect : Effect net before label after) :
    Steady net position after ∧ (before.state.participant.length = net.numHosts →
      after.state.participant = before.state.participant) := by
  have wellformed := wellformed_effect known.wellformed effect
  cases effect with
  | quiet => exact ⟨known, fun _ => rfl⟩
  | attempted => exact ⟨steady_keep known wellformed rfl rfl fun _ => id, fun _ => rfl⟩
  | gaveUp => exact ⟨steady_keep known wellformed rfl rfl fun _ => id, fun _ => rfl⟩
  | sent => exact ⟨steady_keep known wellformed rfl rfl (by simp), fun _ => rfl⟩
  | @reported device choice held mobile =>
    refine ⟨⟨wellformed, known.still, known.stored, fun ctx waits => ?_⟩, fun _ => rfl⟩
    rcases Multiset.mem_add.mp waits with old | new
    · exact known.flying ctx old
    · cases Multiset.mem_singleton.mp new
      exact ⟨device, held, mobile, rfl⟩
  | unsolved => exact ⟨steady_keep known wellformed rfl rfl fun _ => id, fun _ => rfl⟩
  | planned => exact ⟨steady_keep known wellformed rfl rfl (by simp), fun _ => rfl⟩
  | @stored ctx inFlight =>
    refine ⟨⟨wellformed, known.still, fun saved member => ?_, fun other waits => ?_⟩,
      fun full => handleSync_current known full inFlight⟩
    · rcases mem_setNamed member with rfl | old
      · obtain ⟨device, _, _, told⟩ := known.flying ctx inFlight
        exact ⟨device, told⟩
      · exact known.stored saved old
    · exact known.flying other (Multiset.mem_of_mem_erase waits)
  | rewired => exact ⟨steady_keep known wellformed rfl rfl fun _ => Multiset.mem_of_mem_erase, fun _ => rfl⟩
  | received => exact ⟨steady_keep known wellformed rfl rfl fun _ => Multiset.mem_of_mem_erase, fun _ => rfl⟩
  | @forwarded job next inFlight onward =>
    refine ⟨steady_keep known wellformed rfl rfl fun ctx waits => ?_, fun _ => rfl⟩
    rcases Multiset.mem_add.mp waits with old | new
    · exact Multiset.mem_of_mem_erase old
    · simp at new
  | moved => exact ⟨steady_keep known wellformed (permitted.trans known.still.symm) rfl fun _ => id, fun _ => rfl⟩

section Timed

variable {net : FogNetwork} {position : Device → Coord} {moments : List Moment} {sim : Simulation}

theorem steady_start (net : FogNetwork) (position : Device → Coord) :
    Steady net position (Config.initial position) where
  wellformed := reachable_wellformed ⟨position, Relation.ReflTransGen.refl⟩
  still := rfl
  stored := by simp [Config.initial]
  flying := by simp [Config.initial]

theorem firstFitPlan_congr {before after : State} (store : after.participant = before.participant)
    (position : after.position = before.position) (net : FogNetwork) :
    after.firstFitPlan net = before.firstFitPlan net := by
  rw [State.firstFitPlan, problem_congr store position]
  rfl

/-- One event while nobody moves: the store stays as it is once it is full. -/
theorem steady_handles {before after : Simulation} {moment : Moment}
    (run : TimedRun net position moments before) (handles : before.Handles net moment after)
    (known : Steady net position before.config) (still : moment.met.position = position) :
    Steady net position after.config ∧ (moment.met.participant.length = net.numHosts →
      after.state.participant = moment.met.participant) := by
  obtain ⟨moved, stepped⟩ := handles_effects run handles
  have stands : steadily position before.config (.move moment.met.position) := still
  have middle := (steady_effect known stands moved).1
  have permitted : steadily position { before.config with state := moment.met }
      (moment.event.label moment.choice) := by
    cases moment.event <;> exact trivial
  exact steady_effect middle permitted stepped

theorem steady_run (run : TimedRun net position moments sim) (still : Still position moments) :
    Steady net position sim.config ∧ ∀ moment ∈ moments, moment.met.participant.length = net.numHosts →
      sim.state.participant = moment.met.participant := by
  induction run with
  | refl => exact ⟨start_config net position ▸ steady_start net position, by simp⟩
  | @snoc moments before after last run handles ih =>
    obtain ⟨known, earlier⟩ := ih fun moment member => still moment (List.mem_append_left _ member)
    have here : last ∈ moments ++ [last] := List.mem_append_right _ (List.mem_singleton.mpr rfl)
    obtain ⟨steady, constant⟩ := steady_handles run handles known (still last here)
    refine ⟨steady, fun moment member full => ?_⟩
    rcases List.mem_append.mp member with old | new
    · have same := earlier moment old full
      rw [← met_participant handles] at same
      rw [← same] at full
      exact (constant full).trans same
    · obtain rfl := List.mem_singleton.mp new
      exact constant full

/-- While no host moves and every round gets all solutions, the links become those of the one plan and
    stay so. -/
theorem links_converge (run : TimedRun net position moments sim) (still : Still position moments)
    (full : FullRounds net moments) {period : Nat}
    (prompt : ∀ moment ∈ moments, moment.event = .coordinatorTick → moment.choice.interval ≤ period)
    (late : channelDelay + period + channelDelay < sim.now) : Converged net position moments sim := by
  obtain ⟨steady, constant⟩ := steady_run run still
  have one : OnePlan net moments (sim.state.firstFitPlan net) := fun round member _ passed =>
    firstFitPlan_congr (constant round member passed).symm ((still round member).trans steady.still.symm) net
  refine ⟨one, fun names sent => onePlan_sent run full one sent,
    fun sender receiver linked => onePlan_linked run full one linked,
    fun sender receiver planned near =>
      onePlan_reached run full one prompt (run_accounted run).future late planned ?_⟩
  intro moment member
  rw [still moment member]
  exact near

theorem links_converge_opening :
    ∃ moments sim, TimedRun (.ofSizes 1 1 1) (fun _ => ⟨0, 0⟩) moments sim ∧
      (⟨.mobileHost, 0⟩, ⟨.fogHost, 0⟩) ∈ linkSet sim.state.gates ∧
      Converged (.ofSizes 1 1 1) (fun _ => ⟨0, 0⟩) moments sim := by
  have shown : opened (fun run => decide (
      run.2.state.gates.nextGate (.sourceOut ⟨.mobileHost, 0⟩) = some (.componentIn ⟨.fogHost, 0⟩) ∧
      (∀ moment ∈ run.1, moment.event = .coordinatorTick → moment.met.participant.length = 1 →
        satisfyingTable (moment.met.problem (.ofSizes 1 1 1)) = moment.choice.solutions) ∧
      (∀ moment ∈ run.1, moment.event = .coordinatorTick → moment.choice.interval ≤ 3 * channelDelay) ∧
      channelDelay + 3 * channelDelay + channelDelay < run.2.now)) = some true := by decide +kernel
  obtain ⟨moments, sim, run, still, _, checked⟩ := opening_run shown
  obtain ⟨linked, table, prompt, late⟩ := of_decide_eq_true checked
  exact ⟨moments, sim, run, linked, links_converge run still (fullRounds_table table) prompt late⟩

end Timed

end FogNetProof.Runs
