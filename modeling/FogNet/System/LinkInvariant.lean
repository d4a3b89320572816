import FogNet.Coordinator.Rounds
import FogNet.System.Steps

namespace FogNetModel

open Kernel Matching

/-- What every configuration of a run satisfies: the stored and travelling reports are those of
    mobile hosts, the plans sent name hosts of the network, and every connection comes from a plan. -/
structure Wellformed (net : FogNetwork) (config : Config) : Prop where
  registered : Registered net config.state.participant
  reports : ∀ ctx, .sync ctx ∈ config.pending → net.Reports ctx
  plans : ∀ names, .planSent names ∈ config.trace → ∃ plan : Plan, net.Carries plan ∧ names = plan.names
  actions : ∀ device actions, .action device actions ∈ config.pending →
    ∃ plan : Plan, net.Carries plan ∧ .planSent plan.names ∈ config.trace ∧ actions = encode plan.names
  agree : config.state.gates.Agree
  planned : ∀ output input, config.state.gates.nextGate output = some input →
    ∃ (plan : Plan) (sender receiver : Device), net.Carries plan ∧
      .planSent plan.names ∈ config.trace ∧ (sender, receiver) ∈ plan.pairs ∧
      output = .sourceOut sender ∧ input = .componentIn receiver

/-- What the network does to its links, as a relation between gates. -/
inductive LinkStep (links : PartialMatching OutGate InGate) : PartialMatching OutGate InGate → Prop where
  | keep : LinkStep links links
  | assign {sender receiver : Device} (mobile : sender.Mobile) (immobile : ¬ receiver.Mobile) :
      LinkStep links (links.assign (.sourceOut sender) (.componentIn receiver))
  | release {sender : Device} (mobile : sender.Mobile) : LinkStep links (links.release (.sourceOut sender))

end FogNetModel

namespace FogNetProof.Runs

open FogNetModel Kernel FogNetProof.Links FogNetProof.Plans FogNetProof.Rounds

@[simp] theorem emit_participant (state : State) (signal : Signal) :
    (state.emit signal).participant = state.participant := rfl

theorem wellformed_initial (net : FogNetwork) (position : Device → Coord) :
    Wellformed net (Config.initial position) where
  registered := registered_nil net
  reports := by simp [Config.initial]
  plans := by simp [Config.initial]
  actions := by simp [Config.initial]
  agree := Wires.unconnected_agree
  planned := by simp [Config.initial, Wires.unconnected]

theorem wellformed_keep {net : FogNetwork} {before after : Config} (known : Wellformed net before)
    (store : after.state.participant = before.state.participant)
    (fewer : ∀ message ∈ after.pending, message ∈ before.pending ∨ ∃ job, message = .job job)
    (trace : ∀ names, .planSent names ∈ after.trace ↔ .planSent names ∈ before.trace)
    (agree : after.state.gates.Agree)
    (kept : ∀ output input, after.state.gates.nextGate output = some input →
      before.state.gates.nextGate output = some input) : Wellformed net after where
  registered := store ▸ known.registered
  reports := by
    intro ctx inFlight
    rcases fewer _ inFlight with old | ⟨job, same⟩
    · exact known.reports ctx old
    · cases same
  plans := fun names sent => known.plans names ((trace names).mp sent)
  actions := by
    intro device actions inFlight
    rcases fewer _ inFlight with old | ⟨job, same⟩
    · obtain ⟨plan, carried, sent, text⟩ := known.actions device actions old
      exact ⟨plan, carried, (trace _).mpr sent, text⟩
    · cases same
  agree := agree
  planned := by
    intro output input connected
    obtain ⟨plan, sender, receiver, carried, sent, facts⟩ :=
      known.planned output input (kept output input connected)
    exact ⟨plan, sender, receiver, carried, (trace _).mpr sent, facts⟩

theorem assigned_connection {gates after : Gates} {agree : gates.Agree} {afterAgree : after.Agree}
    {plan : Plan} {device : Device} (same : afterAgree.matching = assigned agree.matching plan device)
    {output : OutGate} {input : InGate} (connected : after.nextGate output = some input) :
    gates.nextGate output = some input ∨ ∃ receiver, (device, receiver) ∈ plan.pairs ∧
      output = .sourceOut device ∧ input = .componentIn receiver := by
  rw [← afterAgree.mem_matching, same, assigned] at connected
  cases found : plan.receiverOf device with
  | none =>
    rw [found] at connected
    exact Or.inl connected
  | some receiver =>
    rw [found] at connected
    rcases Matching.PartialMatching.mem_assign.mp connected with ⟨isOutput, isInput⟩ | ⟨old, _⟩
    · exact Or.inr ⟨receiver, receiverOf_eq_some.mp found, isOutput, isInput⟩
    · exact Or.inl old

theorem wellformed_effect {net : FogNetwork} {before after : Config} {label : Label}
    (known : Wellformed net before) (effect : Effect net before label after) :
    Wellformed net after := by
  cases effect with
  | quiet unready => exact known
  | attempted held mobile unlinked =>
    exact wellformed_keep known rfl (fun _ => Or.inl) (by simp) known.agree fun _ _ => id
  | gaveUp held mobile linked far =>
    refine wellformed_keep known rfl (fun _ => Or.inl) (by simp) (known.agree.disconnect _) fun output input => ?_
    intro connected
    rw [Wires.disconnect_nextGate] at connected
    split at connected
    · cases connected
    · exact connected
  | sent held mobile linked near =>
    refine wellformed_keep known rfl (fun message inFlight => ?_) (by simp) known.agree fun _ _ => id
    rcases Multiset.mem_add.mp inFlight with old | new
    · exact Or.inl old
    · exact Or.inr ⟨_, Multiset.mem_singleton.mp new⟩
  | @reported device choice held mobile =>
    refine ⟨known.registered, fun ctx inFlight => ?_, known.plans, fun other actions inFlight => ?_,
      known.agree, known.planned⟩
    · rcases Multiset.mem_add.mp inFlight with old | new
      · exact known.reports ctx old
      · cases Multiset.mem_singleton.mp new
        exact ⟨device, held, mobile, rfl⟩
    · rcases Multiset.mem_add.mp inFlight with old | new
      · exact known.actions other actions old
      · cases Multiset.mem_singleton.mp new
  | unsolved full none =>
    exact wellformed_keep known rfl (fun _ => Or.inl) (by simp) known.agree fun _ _ => id
  | @planned choice selection full some sound selected =>
    obtain ⟨plan, names, text, carried⟩ :=
      selected_plan known.registered before.state.position sound selected
    refine ⟨known.registered, fun ctx inFlight => ?_, fun other sent => ?_,
      fun device actions inFlight => ?_, known.agree, fun output input connected => ?_⟩
    · rcases Multiset.mem_add.mp inFlight with old | new
      · exact known.reports ctx old
      · simp at new
    · rcases List.mem_append.mp sent with old | new
      · exact known.plans other old
      · simp only [List.mem_cons, List.not_mem_nil, or_false, reduceCtorEq, false_or,
          Observation.planSent.injEq] at new
        exact ⟨plan, carried, new.trans names⟩
    · rcases Multiset.mem_add.mp inFlight with old | new
      · obtain ⟨other, otherCarried, sent, otherText⟩ := known.actions device actions old
        exact ⟨other, otherCarried, List.mem_append_left _ sent, otherText⟩
      · simp only [Multiset.mem_coe, List.mem_map, Message.action.injEq] at new
        obtain ⟨_, _, _, isText⟩ := new
        exact ⟨plan, carried, by simp [names], by rw [← isText, text]⟩
    · obtain ⟨other, sender, receiver, otherCarried, sent, facts⟩ :=
        known.planned output input connected
      exact ⟨other, sender, receiver, otherCarried, List.mem_append_left _ sent, facts⟩
  | @stored ctx inFlight =>
    refine ⟨registered_handleSync known.registered (known.reports ctx inFlight), fun other later => ?_,
      known.plans, fun device actions later => ?_, known.agree, known.planned⟩
    · exact known.reports other (Multiset.mem_of_mem_erase later)
    · exact known.actions device actions (Multiset.mem_of_mem_erase later)
  | @rewired device actions gates inFlight handled =>
    obtain ⟨plan, carried, sent, rfl⟩ := known.actions device actions inFlight
    obtain ⟨result, resultAgree, reached, same⟩ := handleAction_plan carried known.agree device
    cases Except.ok.inj (reached.symm.trans handled)
    refine ⟨known.registered, fun ctx later => ?_, known.plans, fun other text later => ?_,
      resultAgree, fun output input connected => ?_⟩
    · exact known.reports ctx (Multiset.mem_of_mem_erase later)
    · exact known.actions other text (Multiset.mem_of_mem_erase later)
    · rcases assigned_connection same connected with old | ⟨receiver, planned, isOutput, isInput⟩
      · exact known.planned output input old
      · exact ⟨plan, device, receiver, carried, sent, planned, isOutput, isInput⟩
  | received inFlight last =>
    exact wellformed_keep known rfl (fun _ later => Or.inl (Multiset.mem_of_mem_erase later)) (by simp)
      known.agree fun _ _ => id
  | forwarded inFlight onward =>
    refine wellformed_keep known rfl (fun message later => ?_) (by simp) known.agree fun _ _ => id
    rcases Multiset.mem_add.mp later with old | new
    · exact Or.inl (Multiset.mem_of_mem_erase old)
    · exact Or.inr ⟨_, Multiset.mem_singleton.mp new⟩
  | moved stationary => exact wellformed_keep known rfl (fun _ => Or.inl) (by simp) known.agree fun _ _ => id

theorem run_wellformed {net : FogNetwork} {allowed : Config → Label → Prop} {start finish : Config}
    (run : Run (Step net) allowed start finish) (known : Wellformed net start) :
    Wellformed net finish :=
  run_invariant (Wellformed net) (fun _ _ _ known _ effect => wellformed_effect known effect) run known

theorem reachable_wellformed {net : FogNetwork} {config : Config} (reachable : Reachable net config) :
    Wellformed net config := by
  obtain ⟨position, run⟩ := reachable
  exact run_wellformed run (wellformed_initial net position)

/-- Every step of the network refines one of the relation: it keeps the links, assigns a planned pair
    or releases a sender. -/
theorem step_links {net : FogNetwork} {before after : Config} {label : Label}
    (reachable : Reachable net before) (step : Step net before label after) :
    ∃ (agree : before.state.gates.Agree) (afterAgree : after.state.gates.Agree),
      LinkStep agree.matching afterAgree.matching := by
  have known := reachable_wellformed reachable
  cases step_effect step with
  | gaveUp held mobile linked far =>
    refine ⟨known.agree, known.agree.disconnect _, ?_⟩
    rw [known.agree.disconnect_matching]
    exact LinkStep.release mobile
  | @rewired device actions gates inFlight handled =>
    obtain ⟨plan, carried, sent, rfl⟩ := known.actions device actions inFlight
    obtain ⟨result, resultAgree, reached, same⟩ := handleAction_plan carried known.agree device
    cases Except.ok.inj (reached.symm.trans handled)
    refine ⟨known.agree, resultAgree, ?_⟩
    rw [same, assigned]
    cases found : plan.receiverOf device with
    | none => exact LinkStep.keep
    | some receiver =>
      have planned := receiverOf_eq_some.mp found
      exact LinkStep.assign (plan.senders_mobile _ planned) (plan.receivers_immobile _ planned)
  | quiet | attempted | sent | reported | unsolved | planned | stored | received | forwarded | moved =>
    exact ⟨known.agree, known.agree, LinkStep.keep⟩

/-- In every reachable configuration the two pointers of each connection agree, connections lead
    from mobile to immobile hosts along entries of plans sent before, and no action message in
    flight can meet a connected gate, or fail in any other way. -/
theorem link_invariant {net : FogNetwork} {config : Config} (reachable : Reachable net config) :
    config.state.gates.Agree ∧
    (∀ output input, config.state.gates.nextGate output = some input →
      ∃ sender receiver, output = .sourceOut sender ∧ input = .componentIn receiver ∧
        net.Holds sender ∧ sender.Mobile ∧ net.Holds receiver ∧ ¬ receiver.Mobile ∧
        ∃ names, .planSent names ∈ config.trace ∧
          (sender.getFullName, receiver.getFullName) ∈ names) ∧
    (∀ device actions, .action device actions ∈ config.pending →
      ∃ gates, LocalCoordinator.handleAction net device actions config.state.gates = .ok gates) := by
  have known := reachable_wellformed reachable
  refine ⟨known.agree, fun output input connected => ?_, fun device actions inFlight => ?_⟩
  · obtain ⟨plan, sender, receiver, carried, sent, planned, isOutput, isInput⟩ :=
      known.planned output input connected
    exact ⟨sender, receiver, isOutput, isInput, (carried _ planned).1, plan.senders_mobile _ planned,
      (carried _ planned).2, plan.receivers_immobile _ planned, plan.names, sent, mem_names.mpr planned⟩
  · obtain ⟨plan, carried, _, rfl⟩ := known.actions device actions inFlight
    obtain ⟨gates, _, handled, _⟩ := handleAction_plan carried known.agree device
    exact ⟨gates, handled⟩

/-- One mobile host reports, a round gives it the fog host at its place, and its message arrives. -/
def firstLink : List Label :=
  let sender := Device.mk .mobileHost 0
  let receiver := Device.mk .fogHost 0
  [.timer (.localTick sender) ⟨0, []⟩,
    .deliver (.sync ⟨sender.getFullName, 0, 0⟩),
    .timer .coordinatorTick ⟨0, [(0, 1)]⟩,
    .deliver (.action sender (encode [(sender.getFullName, receiver.getFullName)]))]

theorem link_invariant_firstLink :
    ∃ config, Reachable (.ofSizes 1 1 1) config ∧
      config.state.gates.nextGate (.sourceOut ⟨.mobileHost, 0⟩) = some (.componentIn ⟨.fogHost, 0⟩) ∧
      config.state.gates.Agree := by
  have played : ((Config.initial fun _ => ⟨0, 0⟩).play (.ofSizes 1 1 1) firstLink).map
      (fun config => config.state.gates.nextGate (.sourceOut ⟨.mobileHost, 0⟩)) =
        some (some (.componentIn ⟨.fogHost, 0⟩)) := by decide +kernel
  obtain ⟨config, reached, linked⟩ := Option.map_eq_some_iff.mp played
  have reachable : Reachable (.ofSizes 1 1 1) config := play_reachable reached
  exact ⟨config, reachable, linked, (link_invariant reachable).1⟩

end FogNetProof.Runs
