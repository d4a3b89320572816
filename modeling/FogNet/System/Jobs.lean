import FogNet.System.LinkInvariant
import Mathlib.Data.Multiset.Filter

namespace FogNetModel

open Kernel

def Message.toJob : Message → Option Job
  | .job content => some content
  | _ => none

def Config.inFlight (config : Config) : Multiset Job := config.pending.filterMap Message.toJob

namespace Observation

def sentJob : Observation → Option Job
  | .asentactual job => some job
  | _ => none

def receivedJob : Observation → Option Job
  | .brecv job => some job
  | _ => none

def clearedListener : Observation → Option SignalListener
  | .cleared listener => some listener
  | _ => none

def signal : Observation → Option Signal
  | .asent _ => some .asent
  | .asentactual _ => some .asentactual
  | .brecv _ => some .brecv
  | .abratioall _ => some .abratioall
  | .cleared _ => none
  | .planSent _ => none

end Observation

def emissions (signal : Signal) (trace : List Observation) : Nat :=
  trace.countP fun seen => seen.signal = some signal

def SignalListener.counter (listener : SignalListener) : Signal → Nat
  | .asent => listener.asent
  | .asentactual => listener.asentactual
  | .brecv => listener.brecv
  | .abratioall => 0

/-- The sum of the values that a counter had when the rounds read and cleared it. -/
def collected (signal : Signal) (trace : List Observation) : Nat :=
  ((trace.filterMap Observation.clearedListener).map fun listener => listener.counter signal).sum

/-- Every job sent is received or in flight, and every emission counted is collected or pending. -/
structure Balanced (config : Config) : Prop where
  jobs : (config.trace.filterMap Observation.sentJob : Multiset Job) =
    ↑(config.trace.filterMap Observation.receivedJob) + config.inFlight
  attempts : emissions .asentactual config.trace ≤ emissions .asent config.trace
  counted : ∀ signal ∈ SignalListener.subscribed,
    collected signal config.trace + config.state.listener.counter signal = emissions signal config.trace

/-- At a point of the run whose trace is still a part of `earlier`, the job was sent by a mobile
    host over its link to exactly the receiver, a pair of an earlier plan, within reach. -/
def SentWithin (net : FogNetwork) (config : Config) (earlier : List Observation) (job : Job) : Prop :=
  ∃ sending, Reachable net sending ∧ Run (Step net) anything sending config ∧
    sending.trace ++ [.asent job.sender, .asentactual job] <+: earlier ∧ job.sender.Mobile ∧
    sending.state.gates.nextGate (.sourceOut job.sender) = some (.componentIn job.arrival) ∧
    ¬ outOfReach (sending.state.position job.sender) (sending.state.position job.arrival) ∧
    ∃ names, .planSent names ∈ sending.trace ∧
      (job.sender.getFullName, job.arrival.getFullName) ∈ names

/-- Every job in flight was sent, and every job received was sent before that. -/
structure Traced (net : FogNetwork) (config : Config) : Prop where
  reachable : Reachable net config
  flying : ∀ job ∈ config.inFlight, SentWithin net config config.trace job
  received : ∀ index job, config.trace[index]? = some (.brecv job) →
    SentWithin net config (config.trace.take index) job

end FogNetModel

namespace FogNetProof.Runs

open FogNetModel Kernel FogNetProof.Plans

@[simp] theorem emissions_append (signal : Signal) (before new : List Observation) :
    emissions signal (before ++ new) = emissions signal before + emissions signal new :=
  List.countP_append

@[simp] theorem collected_append (signal : Signal) (before new : List Observation) :
    collected signal (before ++ new) = collected signal before + collected signal new := by
  simp [collected]

@[simp] theorem emissions_nil (signal : Signal) : emissions signal [] = 0 := rfl

@[simp] theorem emissions_cons (signal : Signal) (seen : Observation) (trace : List Observation) :
    emissions signal (seen :: trace) =
      emissions signal trace + if seen.signal = some signal then 1 else 0 := by
  simp only [emissions, List.countP_cons, decide_eq_true_eq]

@[simp] theorem collected_nil (signal : Signal) : collected signal [] = 0 := rfl

@[simp] theorem collected_cons (signal : Signal) (seen : Observation) (trace : List Observation) :
    collected signal (seen :: trace) =
      seen.clearedListener.elim 0 (·.counter signal) + collected signal trace := by
  cases seen <;> simp [collected, Observation.clearedListener, List.filterMap_cons]

theorem counter_emit (listener : SignalListener) {signal : Signal}
    (counted : signal ∈ SignalListener.subscribed) (emitted : Signal) :
    (listener.emit emitted).counter signal =
      listener.counter signal + if emitted = signal then 1 else 0 := by
  cases emitted <;> cases signal <;> simp_all [SignalListener.subscribed] <;> rfl

theorem ratio_uncounted {signal : Signal} (counted : signal ∈ SignalListener.subscribed) :
    Signal.abratioall ≠ signal := by
  rintro rfl
  revert counted
  decide

theorem counter_reset (listener : SignalListener) (signal : Signal) :
    (CentralizedCoordinator.reset listener).counter signal = 0 := by
  cases signal <;> rfl

section InFlight

variable {config : Config} {message : Message}

theorem inFlight_received {job : Job} (present : .job job ∈ config.pending) :
    config.inFlight = job ::ₘ (config.pending.erase (.job job)).filterMap Message.toJob := by
  conv_lhs => rw [Config.inFlight, ← Multiset.cons_erase present]
  exact Multiset.filterMap_cons_some _ _ _ rfl

theorem inFlight_sent (config : Config) (job : Job) :
    (config.pending + {.job job}).filterMap Message.toJob = config.inFlight + {job} :=
  Multiset.filterMap_add _ _ _

theorem inFlight_erase (present : message ∈ config.pending) (other : message.toJob = none) :
    (config.pending.erase message).filterMap Message.toJob = config.inFlight := by
  conv_rhs => rw [Config.inFlight, ← Multiset.cons_erase present, Multiset.filterMap_cons_none _ _ other]

theorem inFlight_add (others : Multiset Message) (noJob : ∀ message ∈ others, message.toJob = none) :
    (config.pending + others).filterMap Message.toJob = config.inFlight := by
  have noneIn : others.filterMap Message.toJob = 0 := by
    refine Multiset.eq_zero_of_forall_notMem fun job member => ?_
    obtain ⟨message, isOther, isJob⟩ := (Multiset.mem_filterMap _ _).mp member
    exact absurd (noJob message isOther ▸ isJob) (by simp)
  rw [Multiset.filterMap_add, noneIn, Multiset.add_zero, Config.inFlight]

theorem inFlight_reported {ctx : ContextSync} :
    (config.pending + {.sync ctx}).filterMap Message.toJob = config.inFlight :=
  inFlight_add _ (by simp [Message.toJob])

end InFlight

theorem length_sentJob (trace : List Observation) :
    (trace.filterMap Observation.sentJob).length = emissions .asentactual trace := by
  rw [List.length_filterMap_eq_countP, emissions]
  refine List.countP_congr fun seen _ => ?_
  cases seen <;> simp [Observation.sentJob, Observation.signal]

theorem length_receivedJob (trace : List Observation) :
    (trace.filterMap Observation.receivedJob).length = emissions .brecv trace := by
  rw [List.length_filterMap_eq_countP, emissions]
  refine List.countP_congr fun seen _ => ?_
  cases seen <;> simp [Observation.receivedJob, Observation.signal]

theorem balanced_initial (position : Device → Coord) : Balanced (Config.initial position) where
  jobs := rfl
  attempts := Nat.le_refl _
  counted := by
    intro signal _
    cases signal <;> rfl

theorem balanced_append {before after : Config} {new : List Observation} (known : Balanced before)
    (trace : after.trace = before.trace ++ new)
    (jobs : (new.filterMap Observation.sentJob : Multiset Job) + before.inFlight =
      ↑(new.filterMap Observation.receivedJob) + after.inFlight)
    (attempts : emissions .asentactual new ≤ emissions .asent new)
    (counted : ∀ signal ∈ SignalListener.subscribed,
      collected signal new + after.state.listener.counter signal =
        before.state.listener.counter signal + emissions signal new) : Balanced after where
  jobs := by
    rw [trace, List.filterMap_append, List.filterMap_append, ← Multiset.coe_add, ← Multiset.coe_add,
      known.jobs, Multiset.add_assoc, Multiset.add_comm before.inFlight, jobs, Multiset.add_assoc]
  attempts := by
    have earlier := known.attempts
    rw [trace, emissions_append, emissions_append]
    omega
  counted := by
    intro signal subscribed
    have earlier := known.counted signal subscribed
    have balance := counted signal subscribed
    rw [trace, emissions_append, collected_append]
    omega

theorem noJob_actions (hosts : List Device) (actions : List Char) :
    ∀ message ∈ (↑(hosts.map fun device => Message.action device actions) : Multiset Message),
      message.toJob = none := by
  intro message member
  obtain ⟨device, _, rfl⟩ := List.mem_map.mp (Multiset.mem_coe.mp member)
  rfl

theorem balanced_effect {net : FogNetwork} {before after : Config} {label : Label}
    (wellformed : Wellformed net before) (known : Balanced before)
    (effect : Effect net before label after) : Balanced after := by
  cases effect with
  | quiet unready => exact known
  | attempted held mobile unlinked =>
    exact balanced_append known rfl rfl (by simp [Observation.signal]) fun signal subscribed => by
      simp [State.emit, counter_emit _ subscribed, Nat.add_comm, Observation.clearedListener,
        Observation.signal]
  | gaveUp held mobile linked far =>
    exact balanced_append known rfl rfl (by simp [Observation.signal]) fun signal subscribed => by
      simp [State.emit, counter_emit _ subscribed, Nat.add_comm, Observation.clearedListener,
        Observation.signal]
  | @sent device peer choice held mobile linked near =>
    refine balanced_append known rfl ?_ (by simp [Observation.signal]) fun signal subscribed => ?_
    · calc ({⟨device, peer⟩} : Multiset Job) + before.inFlight
        _ = before.inFlight + {⟨device, peer⟩} := Multiset.add_comm _ _
        _ = (before.pending + {.job ⟨device, peer⟩}).filterMap Message.toJob := (inFlight_sent _ _).symm
        _ = 0 + (before.pending + {.job ⟨device, peer⟩}).filterMap Message.toJob :=
            (Multiset.zero_add _).symm
    · simp only [State.emit, counter_emit _ subscribed, collected_cons, collected_nil, emissions_cons,
        emissions_nil, Observation.signal, Observation.clearedListener, Option.elim, Option.some.injEq]
      omega
  | reported held mobile =>
    exact balanced_append known (List.append_nil _).symm
      (congrArg (0 + ·) inFlight_reported.symm) (by simp)
      fun signal subscribed => by simp
  | unsolved full none =>
    exact balanced_append known rfl rfl (by simp [Observation.signal]) fun signal subscribed => by
      simp [counter_reset, Observation.signal, Observation.clearedListener, ratio_uncounted subscribed]
  | @planned choice selection full some sound selected =>
    refine balanced_append known rfl ?_ (by simp [Observation.signal]) fun signal subscribed => by
      simp [counter_reset, Observation.signal, Observation.clearedListener, ratio_uncounted subscribed]
    exact congrArg (0 + ·) (inFlight_add _ (noJob_actions _ _)).symm
  | stored inFlight =>
    exact balanced_append known (List.append_nil _).symm (congrArg (0 + ·) (inFlight_erase inFlight rfl).symm)
      (by simp) fun signal subscribed => by simp
  | rewired inFlight handled =>
    exact balanced_append known (List.append_nil _).symm (congrArg (0 + ·) (inFlight_erase inFlight rfl).symm)
      (by simp) fun signal subscribed => by simp
  | received inFlight last =>
    refine balanced_append known rfl ?_ (by simp [Observation.signal]) fun signal subscribed => by
      simp [State.emit, counter_emit _ subscribed, Nat.add_comm, Observation.clearedListener,
        Observation.signal]
    rw [inFlight_received inFlight]
    exact (Multiset.zero_add _).trans (Multiset.singleton_add _ _).symm
  | forwarded inFlight onward =>
    obtain ⟨_, _, _, _, _, _, isSource, _⟩ := wellformed.planned _ _ onward
    cases isSource
  | moved stationary =>
    exact balanced_append known (List.append_nil _).symm rfl (by simp) fun signal subscribed => by simp

theorem reachable_step {net : FogNetwork} {before after : Config} {label : Label}
    (reachable : Reachable net before) (step : Step net before label after) : Reachable net after := by
  obtain ⟨position, run⟩ := reachable
  exact ⟨position, run.snoc trivial step⟩

theorem sentWithin_step {net : FogNetwork} {before after : Config} {label : Label}
    {earlier later : List Observation} {job : Job} (sent : SentWithin net before earlier job)
    (step : Step net before label after) (longer : earlier <+: later) :
    SentWithin net after later job := by
  obtain ⟨sending, reachable, run, within, facts⟩ := sent
  exact ⟨sending, reachable, run.snoc trivial step, within.trans longer, facts⟩

theorem traced_append {net : FogNetwork} {before after : Config} {label : Label}
    {new : List Observation} (known : Traced net before) (step : Step net before label after)
    (trace : after.trace = before.trace ++ new)
    (flying : ∀ job ∈ after.inFlight, job ∈ before.inFlight ∨ SentWithin net after after.trace job)
    (receives : ∀ job, .brecv job ∈ new → new = [.brecv job] ∧ job ∈ before.inFlight) :
    Traced net after where
  reachable := reachable_step known.reachable step
  flying := by
    intro job member
    rcases flying job member with old | new
    · exact sentWithin_step (known.flying job old) step (trace ▸ List.prefix_append _ _)
    · exact new
  received := by
    intro index job seen
    rw [trace] at seen ⊢
    by_cases early : index < before.trace.length
    · rw [List.getElem?_append_left early] at seen
      rw [List.take_append_of_le_length (Nat.le_of_lt early)]
      exact sentWithin_step (known.received index job seen) step (List.prefix_refl _)
    · rw [List.getElem?_append_right (Nat.le_of_not_lt early)] at seen
      obtain ⟨only, wasFlying⟩ := receives job (List.mem_of_getElem? seen)
      refine sentWithin_step (known.flying job wasFlying) step ?_
      have first : index = before.trace.length := by
        have bound := (List.getElem?_eq_some_iff.mp seen).1
        rw [only, List.length_singleton] at bound
        omega
      rw [first, List.take_left' rfl]

theorem traced_step {net : FogNetwork} {before after : Config} {label : Label}
    (known : Traced net before) (step : Step net before label after) : Traced net after := by
  have wellformed := reachable_wellformed known.reachable
  have effect := step_effect step
  cases effect with
  | quiet unready => exact known
  | attempted held mobile unlinked =>
    exact traced_append known step rfl (fun _ => Or.inl) (by simp)
  | gaveUp held mobile linked far =>
    exact traced_append known step rfl (fun _ => Or.inl) (by simp)
  | @sent device peer choice held mobile linked near =>
    refine traced_append known step rfl (fun job member => ?_) (by simp)
    rcases Multiset.mem_add.mp (Multiset.mem_of_le (inFlight_sent _ _).le member) with old | new
    · exact Or.inl old
    · obtain rfl := Multiset.mem_singleton.mp new
      obtain ⟨plan, _, _, _, sent, planned, isSender, isReceiver⟩ := wellformed.planned _ _ linked
      cases isSender
      cases isReceiver
      exact Or.inr ⟨before, known.reachable, Run.snoc Relation.ReflTransGen.refl trivial step,
        List.prefix_refl _, mobile, linked, near, plan.names, sent, mem_names.mpr planned⟩
  | reported held mobile =>
    refine traced_append known step (List.append_nil _).symm (fun job member => Or.inl ?_) (by simp)
    exact Multiset.mem_of_le inFlight_reported.le member
  | unsolved full none =>
    exact traced_append known step rfl (fun _ => Or.inl) (by simp)
  | @planned choice selection full some sound selected =>
    refine traced_append known step rfl (fun job member => Or.inl ?_) (by simp)
    exact Multiset.mem_of_le (inFlight_add _ (noJob_actions _ _)).le member
  | stored inFlight =>
    refine traced_append known step (List.append_nil _).symm (fun job member => Or.inl ?_) (by simp)
    exact Multiset.mem_of_le (inFlight_erase inFlight rfl).le member
  | rewired inFlight handled =>
    refine traced_append known step (List.append_nil _).symm (fun job member => Or.inl ?_) (by simp)
    exact Multiset.mem_of_le (inFlight_erase inFlight rfl).le member
  | @received job inFlight last =>
    have present := inFlight_received inFlight
    refine traced_append known step rfl (fun other member => Or.inl ?_) fun other seen => ?_
    · rw [present]
      exact Multiset.mem_cons_of_mem member
    · cases List.mem_singleton.mp seen
      exact ⟨rfl, present ▸ Multiset.mem_cons_self _ _⟩
  | forwarded inFlight onward =>
    obtain ⟨_, _, _, _, _, _, isSource, _⟩ := wellformed.planned _ _ onward
    cases isSource
  | moved stationary =>
    exact traced_append known step (List.append_nil _).symm (fun _ => Or.inl) (by simp)

theorem reachable_traced {net : FogNetwork} {config : Config} (reachable : Reachable net config) :
    Traced net config := by
  obtain ⟨position, run⟩ := reachable
  have initially : Traced net (Config.initial position) :=
    ⟨⟨position, Relation.ReflTransGen.refl⟩, by simp [Config.initial, Config.inFlight],
      by simp [Config.initial]⟩
  exact run.invariant (fun _ _ _ known _ step => traced_step known step) initially

theorem reachable_balanced {net : FogNetwork} {config : Config} (reachable : Reachable net config) :
    Balanced config := by
  obtain ⟨position, run⟩ := reachable
  have both : Wellformed net config ∧ Balanced config :=
    run_invariant (fun config => Wellformed net config ∧ Balanced config)
      (fun _ _ _ known _ effect =>
        ⟨wellformed_effect known.1 effect, balanced_effect known.1 known.2 effect⟩) run
      ⟨wellformed_initial net position, balanced_initial position⟩
  exact both.2

/-- In every reachable configuration the jobs sent are those received and those in flight, each
    received one was sent before over a planned link within reach to exactly its receiver, and no
    count is lost to the rounds that clear the counters. -/
theorem jobs_accounted {net : FogNetwork} {config : Config} (reachable : Reachable net config) :
    (config.trace.filterMap Observation.sentJob : Multiset Job) =
      ↑(config.trace.filterMap Observation.receivedJob) + config.inFlight ∧
    emissions .asentactual config.trace =
      emissions .brecv config.trace + config.inFlight.card ∧
    emissions .asentactual config.trace ≤ emissions .asent config.trace ∧
    (∀ index job, config.trace[index]? = some (.brecv job) →
      SentWithin net config (config.trace.take index) job) ∧
    ∀ signal ∈ SignalListener.subscribed,
      collected signal config.trace + config.state.listener.counter signal =
        emissions signal config.trace := by
  have balanced := reachable_balanced reachable
  refine ⟨balanced.jobs, ?_, balanced.attempts, (reachable_traced reachable).received, balanced.counted⟩
  have sizes := congrArg Multiset.card balanced.jobs
  rwa [Multiset.card_add, Multiset.coe_card, Multiset.coe_card, length_sentJob, length_receivedJob] at sizes

def firstJobs : List Label :=
  let job := Job.mk ⟨.mobileHost, 0⟩ ⟨.fogHost, 0⟩
  firstLink ++ [.timer (.sourceTick job.sender) ⟨0, []⟩, .timer (.sourceTick job.sender) ⟨0, []⟩,
    .deliver (.job job)]

theorem jobs_accounted_firstJobs :
    ∃ config, Reachable (.ofSizes 1 1 1) config ∧ config.inFlight.card = 1 ∧
      .brecv ⟨⟨.mobileHost, 0⟩, ⟨.fogHost, 0⟩⟩ ∈ config.trace ∧
      emissions .asentactual config.trace = emissions .brecv config.trace + config.inFlight.card := by
  have played : ((Config.initial fun _ => ⟨0, 0⟩).play (.ofSizes 1 1 1) firstJobs).map (fun config =>
      (config.inFlight.card, decide (.brecv ⟨⟨.mobileHost, 0⟩, ⟨.fogHost, 0⟩⟩ ∈ config.trace))) =
        some (1, true) := by decide +kernel
  obtain ⟨config, reached, facts⟩ := Option.map_eq_some_iff.mp played
  simp only [Prod.mk.injEq, decide_eq_true_eq] at facts
  have reachable : Reachable (.ofSizes 1 1 1) config := play_reachable reached
  exact ⟨config, reachable, facts.1, facts.2, (jobs_accounted reachable).2.1⟩

end FogNetProof.Runs
