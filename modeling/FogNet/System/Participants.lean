import FogNet.System.IdlePairs
import FogNet.System.LinkInvariant

namespace FogNetModel

open CentralizedCoordinator Kernel

def Label.report : Label → Option ContextSync
  | .deliver (.sync ctx) => some ctx
  | _ => none

def reports (labels : List Label) : List ContextSync := labels.filterMap Label.report

def lastReport (history : List ContextSync) (device : List Char) : Option ContextSync :=
  (history.filter fun ctx => ctx.device = device).getLast?

/-- One entry for each device, in the order of the first reports, with the device's last report. -/
structure LastReports (history : List ContextSync) (participant : List SavedMsg) : Prop where
  order : participant.map SavedMsg.name = (history.map ContextSync.device).eraseDups
  distinct : (participant.map SavedMsg.name).Nodup
  latest : ∀ saved ∈ participant, lastReport history saved.name = some saved.ctx

def FogNetwork.AllReported (net : FogNetwork) (history : List ContextSync) : Prop :=
  ∀ device, net.Holds device → device.Mobile → ∃ ctx ∈ history, ctx.device = device.getFullName

end FogNetModel

namespace FogNetProof.Runs

open FogNetModel FogNetModel.CentralizedCoordinator Kernel FogNetProof.Names FogNetProof.Rounds

def saveMsg (ctx : ContextSync) : SavedMsg := { name := ctx.device, ctx := ctx }

theorem stored_eq (history : List ContextSync) :
    stored history = setAllNamed SavedMsg.name (history.map saveMsg) := by
  rw [stored, setAllNamed, List.foldl_map]
  rfl

theorem lastNamed_saveMsg (history : List ContextSync) (device : List Char) :
    lastNamed SavedMsg.name (history.map saveMsg) device = (lastReport history device).map saveMsg := by
  rw [lastNamed, lastReport, List.filter_map, List.getLast?_map]
  rfl

theorem stored_lastReports (history : List ContextSync) : LastReports history (stored history) where
  order := by
    rw [stored_eq, setAllNamed_names, List.map_map]
    rfl
  distinct := stored_eq history ▸ setAllNamed_nodup _
  latest := by
    intro saved member
    rw [stored_eq] at member
    have distinct : ((setAllNamed SavedMsg.name (history.map saveMsg)).map SavedMsg.name).Nodup :=
      setAllNamed_nodup _
    have found := find?_of_mem distinct member
    rw [find?_setAllNamed, lastNamed_saveMsg] at found
    obtain ⟨ctx, last, same⟩ := Option.map_eq_some_iff.mp found
    rw [last, ← same]
    rfl

theorem stored_prefix (history more : List ContextSync) :
    (stored history).map SavedMsg.name <+: (stored (history ++ more)).map SavedMsg.name := by
  rw [stored_eq, stored_eq, List.map_append]
  exact setAllNamed_prefix _ _

theorem mem_stored_names {history : List ContextSync} {device : List Char} :
    device ∈ (stored history).map SavedMsg.name ↔ ∃ ctx ∈ history, ctx.device = device := by
  rw [(stored_lastReports history).order, List.mem_eraseDups, List.mem_map]

def mobileNames (net : FogNetwork) : List (List Char) :=
  (vector .mobileHost net.numHosts).map Device.getFullName

theorem mem_mobileNames {net : FogNetwork} {name : List Char} :
    name ∈ mobileNames net ↔ ∃ device, net.Holds device ∧ device.Mobile ∧ name = device.getFullName := by
  simp only [mobileNames, List.mem_map, mem_vector]
  constructor
  · rintro ⟨device, ⟨mobile, bound⟩, rfl⟩
    refine ⟨device, ?_, mobile, rfl⟩
    rw [FogNetwork.Holds, mobile]
    exact bound
  · rintro ⟨device, held, mobile, rfl⟩
    refine ⟨device, ⟨mobile, ?_⟩, rfl⟩
    rw [FogNetwork.Holds, mobile] at held
    exact held

/-- The entries are distinct mobile hosts, so there are as many as mobile hosts exactly when each of
    these is among them. -/
theorem stored_full_iff {net : FogNetwork} {history : List ContextSync}
    (reported : ∀ ctx ∈ history, net.Reports ctx) :
    (stored history).length = net.numHosts ↔ net.AllReported history := by
  have known : (stored history).map SavedMsg.name ⊆ mobileNames net := by
    intro name member
    obtain ⟨ctx, received, rfl⟩ := mem_stored_names.mp member
    exact mem_mobileNames.mpr (reported ctx received)
  have distinct := (stored_lastReports history).distinct
  have mobileDistinct : (mobileNames net).Nodup := (vector_nodup _ _).map getFullName_injective
  have size : (mobileNames net).length = net.numHosts := by simp [mobileNames, vector]
  have fewer := (distinct.subperm known).length_le
  rw [List.length_map, size] at fewer
  constructor
  · intro full device held mobile
    have same := (distinct.subperm known).perm_of_length_le (by rw [List.length_map, size, full])
    exact mem_stored_names.mp (same.mem_iff.mpr (mem_mobileNames.mpr ⟨device, held, mobile, rfl⟩))
  · intro all
    have covered : mobileNames net ⊆ (stored history).map SavedMsg.name := by
      intro name member
      obtain ⟨device, held, mobile, rfl⟩ := mem_mobileNames.mp member
      exact mem_stored_names.mpr (all device held mobile)
    have more := (mobileDistinct.subperm covered).length_le
    rw [List.length_map, size] at more
    exact Nat.le_antisymm fewer more

theorem step_participant {net : FogNetwork} {before after : Config} {label : Label}
    (step : Step net before label after) :
    after.state.participant = label.report.toList.foldl handleSync before.state.participant := by
  cases label with
  | timer => cases step_effect step <;> rfl
  | move => cases step_effect step <;> rfl
  | deliver message =>
    cases message with
    | sync ctx =>
      cases step with
      | deliver inFlight handled =>
        cases handled
        rfl
    | action => cases step_effect step <;> rfl
    | job => cases step_effect step <;> rfl

theorem step_reports {net : FogNetwork} {before after : Config} {label : Label}
    (known : Wellformed net before) (step : Step net before label after) :
    ∀ ctx ∈ label.report.toList, net.Reports ctx := by
  intro ctx member
  cases step with
  | timer => cases member
  | move => cases member
  | @deliver message choice reaction inFlight handled =>
    cases message with
    | sync other =>
      obtain rfl : ctx = other := List.mem_singleton.mp member
      exact known.reports ctx inFlight
    | action => cases member
    | job => cases member

theorem reports_append (labels more : List Label) :
    reports (labels ++ more) = reports labels ++ reports more := List.filterMap_append

theorem reports_singleton (label : Label) : reports [label] = label.report.toList := by
  rw [reports, List.filterMap_cons]
  cases label.report <;> rfl

theorem run_stored {net : FogNetwork} {position : Device → Coord} {labels : List Label} {config : Config}
    (run : Labelled (Step net) (Config.initial position) labels config) :
    (∀ ctx ∈ reports labels, net.Reports ctx) ∧ config.state.participant = stored (reports labels) := by
  induction run with
  | refl => exact ⟨by simp [reports], rfl⟩
  | @snoc labels before after label run taken ih =>
    obtain ⟨reported, holds⟩ := ih
    have known : Wellformed net before :=
      reachable_wellformed ⟨position, run.run fun _ _ _ => trivial⟩
    rw [reports_append, reports_singleton]
    constructor
    · intro ctx member
      rcases List.mem_append.mp member with old | new
      · exact reported ctx old
      · exact step_reports known taken ctx new
    · rw [step_participant taken, holds, stored_append]

theorem immobile_silent {device : Device} (immobile : ¬ device.Mobile) (interval : Nat) (state : State) :
    ∀ ctx, .sync ctx ∉ (LocalCoordinator.handleTick device interval state).messages := by
  simp [LocalCoordinator.handleTick, immobile, Reaction.messages, Event.toMessage]

/-- The participant array is a last-writer-wins map whose indices never change, for every history
    of reports and along every run, and the guard of a round passes exactly when every mobile host
    has reported, from then on for good. Immobile hosts never report. -/
theorem participants_follow_reports {net : FogNetwork} :
    (∀ history, (∀ ctx ∈ history, net.Reports ctx) →
      LastReports history (stored history) ∧
      (∀ more, (stored history).map SavedMsg.name <+: (stored (history ++ more)).map SavedMsg.name) ∧
      ((stored history).length = net.numHosts ↔ net.AllReported history)) ∧
    (∀ position labels config, Labelled (Step net) (Config.initial position) labels config →
      (∀ ctx ∈ reports labels, net.Reports ctx) ∧
      config.state.participant = stored (reports labels) ∧
      ∀ more later, Labelled (Step net) config more later →
        later.state.participant = stored (reports labels ++ reports more) ∧
        (config.state.participant.length = net.numHosts →
          later.state.participant.length = net.numHosts)) ∧
    ∀ device, ¬ device.Mobile → ∀ interval state ctx,
      .sync ctx ∉ (LocalCoordinator.handleTick device interval state).messages := by
  refine ⟨fun history reported => ?_, fun position labels config run => ?_,
    fun device immobile interval state => immobile_silent immobile interval state⟩
  · exact ⟨stored_lastReports history, stored_prefix history, stored_full_iff reported⟩
  · obtain ⟨reported, holds⟩ := run_stored run
    refine ⟨reported, holds, fun more later onward => ?_⟩
    obtain ⟨laterReported, laterHolds⟩ := run_stored (run.append onward)
    rw [reports_append] at laterReported laterHolds
    refine ⟨laterHolds, fun full => ?_⟩
    rw [holds, stored_full_iff reported] at full
    rw [laterHolds, stored_full_iff laterReported]
    intro device held mobile
    obtain ⟨ctx, received, named⟩ := full device held mobile
    exact ⟨ctx, List.mem_append_left _ received, named⟩

theorem participants_follow_reports_firstLink :
    ∃ config, Labelled (Step (.ofSizes 1 1 1)) (Config.initial fun _ => ⟨0, 0⟩) firstLink config ∧
      config.state.participant = stored [⟨(Device.mk .mobileHost 0).getFullName, 0, 0⟩] ∧
      (stored [⟨(Device.mk .mobileHost 0).getFullName, 0, 0⟩]).length = 1 := by
  have played : ((Config.initial fun _ => ⟨0, 0⟩).play (.ofSizes 1 1 1) firstLink).isSome := by
    decide +kernel
  obtain ⟨config, reached⟩ := Option.isSome_iff_exists.mp played
  have run := play_labelled reached
  obtain ⟨reported, holds, _⟩ := participants_follow_reports.2.1 _ _ _ run
  have passes := (participants_follow_reports.1 _ reported).2.2
  refine ⟨config, run, holds, passes.mpr fun device held mobile => ?_⟩
  obtain ⟨kind, index⟩ := device
  obtain rfl : kind = .mobileHost := mobile
  obtain rfl : index = 0 := Nat.lt_one_iff.mp held
  exact ⟨_, List.mem_singleton.mpr rfl, rfl⟩

end FogNetProof.Runs
