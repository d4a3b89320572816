import FogNet.System.Timers

namespace FogNetModel

open Kernel

/-- The sender gets a plan that links it to the receiver. -/
def Moment.Links (sender receiver : Device) (moment : Moment) : Prop :=
  ∃ plan : Plan, moment.event = .message (.action sender (encode plan.names)) ∧
    (sender, receiver) ∈ plan.pairs

/-- The link is put in place or found within reach. -/
def Moment.Renews (sender receiver : Device) (moment : Moment) : Prop :=
  moment.Links sender receiver ∨ (moment.event = .sourceTick sender ∧
    ¬ outOfReach (moment.met.position sender) (moment.met.position receiver))

end FogNetModel

namespace FogNetProof.Runs

open FogNetModel Kernel FogNetProof.Links FogNetProof.Names FogNetProof.Plans FogNetProof.Rounds

variable {net : FogNetwork} {position : Device → Coord} {sender receiver : Device}

theorem label_deliver {event : Event} {choice : Choice} {content : Message}
    (delivered : event.label choice = .deliver content) : event = .message content := by
  cases event with
  | message other =>
    cases delivered
    rfl
  | sourceTick | localTick | coordinatorTick => cases delivered

/-- Links come from the plans that their senders get, and from nothing else. -/
theorem link_made {moments : List Moment} {before after : Simulation} {moment : Moment}
    (run : TimedRun net position moments before) (handles : before.Handles net moment after)
    (linked : (sender, receiver) ∈ linkSet after.state.gates) :
    (sender, receiver) ∈ linkSet before.state.gates ∨ moment.Links sender receiver := by
  have known := met_wellformed run handles
  obtain ⟨_, stepped⟩ := handles_effects run handles
  have kept : (sender, receiver) ∈ linkSet moment.met.gates → (sender, receiver) ∈ linkSet before.state.gates := by
    rw [handles.met]
    exact id
  generalize isLabel : moment.event.label moment.choice = label at stepped
  generalize reached : after.config = config at stepped
  have gates : after.state.gates = config.state.gates := congrArg (fun config => config.state.gates) reached
  rw [gates] at linked
  cases stepped with
  | @gaveUp device peer choice held mobile toPeer far =>
    refine Or.inl (kept ?_)
    simp only [linkSet, Set.mem_ofPred_eq, Wires.disconnect_nextGate] at linked ⊢
    split at linked
    · cases linked
    · exact linked
  | @rewired device actions gates flying handled =>
    obtain ⟨plan, carried, sent, rfl⟩ := known.actions device actions flying
    obtain ⟨result, resultAgree, reached, same⟩ := handleAction_plan carried known.agree device
    cases Except.ok.inj (reached.symm.trans handled)
    rcases assigned_connection same linked with old | ⟨_, planned, isOutput, isInput⟩
    · exact Or.inl (kept old)
    · cases isOutput
      cases isInput
      exact Or.inr ⟨plan, label_deliver isLabel, planned⟩
  | quiet | attempted | sent | reported | unsolved | planned | stored | received | forwarded | moved =>
    exact Or.inl (kept linked)

/-- The tick of a source that finds its peer too far leaves no link to it. -/
theorem tick_releases {before after : Simulation} {tick : Moment} (handles : before.Handles net tick after)
    (isTick : tick.event = .sourceTick sender) (mobile : sender.Mobile)
    (far : outOfReach (tick.met.position sender) (tick.met.position receiver)) :
    (sender, receiver) ∉ linkSet after.state.gates := by
  have handled := handles.handled
  rw [isTick] at handled
  have reacts := handle_reacts handled
  obtain ⟨rest, events, rfl⟩ := handles.became
  show tick.reaction.state.gates.nextGate (.sourceOut sender) ≠ some (.componentIn receiver)
  generalize tick.reaction = reaction at reacts
  cases reacts with
  | asleep immobile => exact absurd mobile immobile
  | attempted _ unlinked =>
    intro linked
    exact absurd (unlinked.symm.trans linked) (by simp)
  | gaveUp => simp [Wires.disconnect_nextGate]
  | sent _ there near =>
    intro linked
    have same := Option.some.inj (there.symm.trans linked)
    exact near (same ▸ far)

theorem link_origin {moments later : List Moment} {middle finish : Simulation}
    (run : TimedRun net position moments middle) (rest : Labelled (Simulation.Handles net) middle later finish)
    (linked : (sender, receiver) ∈ linkSet finish.state.gates) :
    (sender, receiver) ∈ linkSet middle.state.gates ∨ ∃ moment ∈ later, moment.Links sender receiver := by
  induction rest with
  | refl => exact Or.inl linked
  | @snoc later before after moment rest handles ih =>
    rcases link_made (run.append rest) handles linked with old | made
    · rcases ih old with older | ⟨earlier, member, made⟩
      · exact Or.inl older
      · exact Or.inr ⟨earlier, List.mem_append_left _ member, made⟩
    · exact Or.inr ⟨moment, List.mem_append_right _ (List.mem_singleton.mpr rfl), made⟩

/-- The case of a link younger than the period needs no tick: it has been made. -/
theorem link_renewal {moments : List Moment} {sim : Simulation} (run : TimedRun net position moments sim)
    (linked : (sender, receiver) ∈ linkSet sim.state.gates) {period now : Nat}
    (prompt : ∀ moment ∈ moments, moment.event = .sourceTick sender → moment.choice.interval ≤ period)
    (future : ∀ entry ∈ sim.events, now ≤ entry.1) :
    ∃ moment ∈ moments, now ≤ moment.time + period ∧ moment.Renews sender receiver := by
  rcases Nat.lt_or_ge period now with long | short
  · obtain ⟨held, mobile, _⟩ := linked_hosts (reachable_wellformed (run_reachable run)) linked
    have recurring : net.Recurring (.sourceTick sender) := ⟨held, mobile⟩
    have far : now - period - 1 + period < now := by omega
    obtain ⟨tick, member, isTick, after, _⟩ :=
      tick_within (.sourceTick sender) recurring run prompt future far
    have recent : now ≤ tick.time + period := by omega
    by_cases far : outOfReach (tick.met.position sender) (tick.met.position receiver)
    · obtain ⟨earlier, later, whole⟩ := List.append_of_mem member
      have ordered := run_chronological run
      rw [whole] at ordered
      obtain ⟨before, next, first, handles, rest⟩ := Labelled.split (whole ▸ run)
      rcases link_origin (first.snoc handles) rest linked with kept | ⟨moment, isLater, made⟩
      · exact absurd kept (tick_releases handles isTick mobile far)
      · have follows := (List.pairwise_cons.mp (List.pairwise_append.mp ordered).2.1).1 moment isLater
        refine ⟨moment, ?_, recent.trans (Nat.add_le_add_right follows period), Or.inl made⟩
        rw [whole]
        exact List.mem_append_right _ (List.mem_cons_of_mem _ isLater)
    · exact ⟨tick, member, recent, Or.inr ⟨isTick, far⟩⟩
  · rcases link_origin Labelled.refl run linked with initial | ⟨moment, member, made⟩
    · cases initial
    · exact ⟨moment, member, by omega, Or.inl made⟩

end FogNetProof.Runs
