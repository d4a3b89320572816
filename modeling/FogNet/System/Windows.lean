import FogNet.System.Ratio

namespace FogNetModel

/-- A trace cut where the rounds clear the counters. -/
structure Windows where
  closed : List (List Observation)
  current : List Observation

namespace Windows

def see (windows : Windows) : Observation → Windows
  | .cleared _ => ⟨windows.closed ++ [windows.current], []⟩
  | seen => ⟨windows.closed, windows.current ++ [seen]⟩

def ofTrace (trace : List Observation) : Windows := trace.foldl see ⟨[], []⟩

end Windows

def counts (window : List Observation) : SignalListener where
  asent := emissions .asent window
  asentactual := emissions .asentactual window
  brecv := emissions .brecv window

/-- Jobs received for every hundred ticks of the sources, and 1 in a window without ticks. -/
def deliveryRatio (window : List Observation) : Nat :=
  if emissions .asent window = 0 then 1
  else emissions .brecv window * 100 / emissions .asent window

def Observation.reported : Observation → Option Nat
  | .abratioall value => some value
  | _ => none

/-- The counters are those of the open window, and the rounds have cleared and reported exactly those
    of the closed ones. -/
structure Audited (config : Config) : Prop where
  pending : config.state.listener = counts (Windows.ofTrace config.trace).current
  cleared : config.trace.filterMap Observation.clearedListener =
    (Windows.ofTrace config.trace).closed.map counts
  reported : config.trace.filterMap Observation.reported =
    (Windows.ofTrace config.trace).closed.map deliveryRatio

end FogNetModel

namespace FogNetProof.Runs

open FogNetModel Kernel

theorem ofTrace_append (trace new : List Observation) :
    Windows.ofTrace (trace ++ new) = new.foldl Windows.see (Windows.ofTrace trace) := List.foldl_append

theorem see_plain {windows : Windows} {seen : Observation} (plain : seen.clearedListener = none) :
    windows.see seen = ⟨windows.closed, windows.current ++ [seen]⟩ := by
  cases seen <;> first | rfl | cases plain

theorem see_all_plain (windows : Windows) {new : List Observation}
    (plain : ∀ seen ∈ new, seen.clearedListener = none) :
    new.foldl Windows.see windows = ⟨windows.closed, windows.current ++ new⟩ := by
  induction new generalizing windows with
  | nil => simp
  | cons seen new ih =>
    rw [List.foldl_cons, see_plain (plain seen List.mem_cons_self),
      ih _ fun other later => plain other (List.mem_cons_of_mem _ later), List.append_assoc]
    rfl

theorem ratio_counts (window : List Observation) :
    CentralizedCoordinator.ratio (counts window) = deliveryRatio window := by
  unfold CentralizedCoordinator.ratio deliveryRatio
  by_cases none : emissions .asent window = 0 <;> simp [counts, none]

section Appending

variable {before after : Config}

/-- What is counted goes to the open window. -/
theorem audited_count (known : Audited before) {new : List Observation}
    (trace : after.trace = before.trace ++ new) (plain : ∀ seen ∈ new, seen.clearedListener = none)
    (silent : ∀ seen ∈ new, seen.reported = none)
    (listener : after.state.listener =
      counts ((Windows.ofTrace before.trace).current ++ new)) : Audited after := by
  have windows : Windows.ofTrace after.trace = ⟨(Windows.ofTrace before.trace).closed,
      (Windows.ofTrace before.trace).current ++ new⟩ := by
    rw [trace, ofTrace_append, see_all_plain _ plain]
  refine ⟨?_, ?_, ?_⟩
  · rw [windows, listener]
  · rw [windows, trace, List.filterMap_append, List.filterMap_eq_nil_iff.mpr plain, List.append_nil,
      known.cleared]
  · rw [windows, trace, List.filterMap_append, List.filterMap_eq_nil_iff.mpr silent, List.append_nil,
      known.reported]

/-- A round closes the window and reports it. -/
theorem audited_round (known : Audited before) (sent : List Observation)
    (trace : after.trace = before.trace ++ ([.abratioall (CentralizedCoordinator.ratio before.state.listener),
      .cleared before.state.listener] ++ sent))
    (plain : ∀ seen ∈ sent, seen.clearedListener = none) (silent : ∀ seen ∈ sent, seen.reported = none)
    (uncounted : counts sent = SignalListener.initial)
    (listener : after.state.listener = CentralizedCoordinator.reset before.state.listener) :
    Audited after := by
  have closing : counts ((Windows.ofTrace before.trace).current ++
      [.abratioall (CentralizedCoordinator.ratio before.state.listener)]) = before.state.listener := by
    rw [known.pending]
    simp [counts, Observation.signal]
  have windows : Windows.ofTrace after.trace = ⟨(Windows.ofTrace before.trace).closed ++
      [(Windows.ofTrace before.trace).current ++
        [.abratioall (CentralizedCoordinator.ratio before.state.listener)]], sent⟩ := by
    rw [trace, ofTrace_append, List.foldl_append, see_all_plain _ plain]
    rfl
  refine ⟨?_, ?_, ?_⟩
  · rw [windows, listener, uncounted]
    rfl
  · rw [windows, trace, List.filterMap_append, List.filterMap_append, List.filterMap_eq_nil_iff.mpr plain,
      known.cleared, List.map_append, List.map_singleton, closing]
    rfl
  · rw [windows, trace, List.filterMap_append, List.filterMap_append, List.filterMap_eq_nil_iff.mpr silent,
      known.reported, List.map_append, List.map_singleton, ← ratio_counts, closing]
    rfl

theorem audited_effect {net : FogNetwork} {label : Label} (known : Audited before)
    (effect : Effect net before label after) : Audited after := by
  have pending := known.pending
  cases effect with
  | quiet => exact known
  | attempted =>
    apply audited_count known rfl
    · simp [Observation.clearedListener]
    · simp [Observation.reported]
    · simp [pending, counts, Observation.signal]
  | gaveUp =>
    apply audited_count known rfl
    · simp [Observation.clearedListener]
    · simp [Observation.reported]
    · simp [pending, counts, Observation.signal]
  | sent =>
    apply audited_count known rfl
    · simp [Observation.clearedListener]
    · simp [Observation.reported]
    · simp [pending, counts, Observation.signal]
  | reported => exact ⟨known.pending, known.cleared, known.reported⟩
  | unsolved =>
    apply audited_round known [] rfl
    · simp
    · simp
    · rfl
    · rfl
  | planned =>
    apply audited_round known [.planSent _] rfl
    · simp [Observation.clearedListener]
    · simp [Observation.reported]
    · rfl
    · rfl
  | stored => exact ⟨known.pending, known.cleared, known.reported⟩
  | rewired => exact ⟨known.pending, known.cleared, known.reported⟩
  | received =>
    apply audited_count known rfl
    · simp [Observation.clearedListener]
    · simp [Observation.reported]
    · simp [pending, counts, Observation.signal]
  | forwarded =>
    apply audited_count known rfl
    · simp [Observation.clearedListener]
    · simp [Observation.reported]
    · simp [pending, counts, Observation.signal]
  | moved => exact ⟨known.pending, known.cleared, known.reported⟩

end Appending

/-- In every reachable configuration the rounds have reported the delivery ratios of their windows, and
    every emission is in exactly one window. -/
theorem windows_audited {net : FogNetwork} {config : Config} (reachable : Reachable net config) :
    Audited config := by
  obtain ⟨position, run⟩ := reachable
  exact run_invariant Audited (fun _ _ _ known _ effect => audited_effect known effect) run ⟨rfl, rfl, rfl⟩

theorem windows_audited_firstJobs :
    ∃ config, Reachable (.ofSizes 1 1 1) config ∧
      config.trace.filterMap Observation.reported = [1, 50] ∧ Audited config := by
  have played : ((Config.initial fun _ => ⟨0, 0⟩).play (.ofSizes 1 1 1)
      (firstJobs ++ [.timer .coordinatorTick ⟨0, []⟩])).map (fun config =>
        config.trace.filterMap Observation.reported) = some [1, 50] := by decide +kernel
  obtain ⟨config, reached, reports⟩ := Option.map_eq_some_iff.mp played
  have reachable : Reachable (.ofSizes 1 1 1) config := play_reachable reached
  exact ⟨config, reachable, reports, windows_audited reachable⟩

end FogNetProof.Runs
