import FogNet.Coordinator.FirstFit
import FogNet.Coordinator.Rounds
import FogNet.Matching.Stable

namespace FogNetModel

/-- Every host would take the smallest index it can get: a satisfying pair is planned, or one of its
    hosts is in a pair that it likes better. -/
structure Problem.StablePlan (problem : Problem) (plan : List (Nat × Nat)) : Prop where
  satisfied : ∀ pair ∈ plan, problem.satisfies pair.1 pair.2 = true
  senders : (plan.map Prod.fst).Nodup
  receivers : (plan.map Prod.snd).Nodup
  settled : ∀ a b, problem.satisfies a b = true → (a, b) ∈ plan ∨
    (∃ better < b, (a, better) ∈ plan) ∨ ∃ better < a, (better, b) ∈ plan

def SharesIndex (left right : Nat × Nat) : Prop := left.1 = right.1 ∨ left.2 = right.2

end FogNetModel

namespace FogNetProof.Rounds

open FogNetModel FogNetModel.CentralizedCoordinator Matching FogNetProof.Plans

variable {problem : Problem} {plan : List (Nat × Nat)}

theorem directPlan_stable (aligned : problem.Aligned) : problem.StablePlan problem.directPlan where
  satisfied := fun _ chosen => (mem_firstFit chosen).2.2.1
  senders := List.nodup_range.sublist (firstFit_senders _ _)
  receivers := firstFit_receivers _ _
  settled := by
    intro a b satisfied
    obtain ⟨aBound, bBound⟩ := satisfies_bounds aligned satisfied
    have settled := firstFit_settled List.pairwise_lt_range List.pairwise_lt_range []
      (List.mem_range.mpr aBound) (List.mem_range.mpr bBound) satisfied
    exact settled.resolve_left (by simp)

theorem lexicographic_earlier {pairs earlier later : List (Nat × Nat)} {left right : Nat × Nat}
    (ordered : pairs.Pairwise Lexicographic) (split : pairs = earlier ++ right :: later)
    (member : left ∈ pairs) (before : Lexicographic left right) : left ∈ earlier := by
  subst split
  rcases List.mem_append.mp member with early | late
  · exact early
  · have behind := (List.pairwise_append.mp ordered).2.1
    rcases List.mem_cons.mp late with rfl | after
    · simp only [Lexicographic] at before
      omega
    · have follows := (List.pairwise_cons.mp behind).1 left after
      simp only [Lexicographic] at before follows
      omega

theorem stablePlan_stable (aligned : problem.Aligned) (stable : problem.StablePlan plan) :
    Stable SharesIndex (satisfyingTable problem) (· ∈ plan) where
  drawn := fun pair chosen => (mem_table aligned).mpr (stable.satisfied pair chosen)
  apart := by
    rintro left right inLeft inRight (sender | receiver)
    · exact List.inj_on_of_nodup_map stable.senders inLeft inRight sender
    · exact List.inj_on_of_nodup_map stable.receivers inLeft inRight receiver
  blocked := by
    rintro earlier ⟨a, b⟩ later split leftOut
    have ordered := table_lexicographic problem
    have offered : (a, b) ∈ satisfyingTable problem := by simp [split]
    have inTable : ∀ pair ∈ plan, pair ∈ satisfyingTable problem := fun pair chosen =>
      (mem_table aligned).mpr (stable.satisfied pair chosen)
    rcases stable.settled a b ((mem_table aligned).mp offered) with chosen | better | better
    · exact absurd chosen leftOut
    · obtain ⟨other, below, chosen⟩ := better
      have early := lexicographic_earlier ordered split (inTable _ chosen) (Or.inr ⟨rfl, below⟩)
      exact ⟨(a, other), early, chosen, Or.inl rfl⟩
    · obtain ⟨other, below, chosen⟩ := better
      have early := lexicographic_earlier ordered split (inTable _ chosen) (Or.inl below)
      exact ⟨(other, b), early, chosen, Or.inr rfl⟩

theorem stablePlan_perm (aligned : problem.Aligned) {other : List (Nat × Nat)}
    (left : problem.StablePlan plan) (right : problem.StablePlan other) : other.Perm plan := by
  apply (List.perm_ext_iff_of_nodup right.senders.of_map left.senders.of_map).mpr
  intro pair
  exact (stablePlan_stable aligned right).unique (stablePlan_stable aligned left) pair

/-- Whatever the solver offers and in which order, the plan is the one stable choice from it: a pair
    is left out only when a pair offered before it has one of its hosts. -/
theorem selection_stable (distinct : problem.Distinct) {solutions : List (Nat × Nat)}
    (inRange : problem.InRange solutions) :
    ∃ selection, select problem solutions = .ok selection ∧
      selection.coordinationResultsStr = encode selection.plan ∧
      Stable Touch (solutions.map problem.names) (· ∈ selection.plan) ∧
      ∀ chosen, Stable Touch (solutions.map problem.names) chosen →
        ∀ edge, chosen edge ↔ edge ∈ selection.plan := by
  obtain ⟨selection, selected, plan, text, _⟩ := select_eq inRange
  have stable : Stable Touch (solutions.map problem.names) (· ∈ selection.plan) := by
    rw [plan]
    exact greedy_stable (names_loopless distinct inRange)
  exact ⟨selection, selected, text, stable, fun chosen other => other.unique stable⟩

theorem selection_stable_of_repeated :
    ∃ selection, select twoByTwo [(0, 1), (1, 1), (0, 1), (1, 0)] = .ok selection ∧
      Stable Touch [(['a'], ['d']), (['b'], ['d']), (['a'], ['d']), (['b'], ['c'])] (· ∈ selection.plan) := by
  obtain ⟨selection, selected, _, stable, _⟩ := selection_stable twoByTwo_distinct twoByTwo_repeated
  exact ⟨selection, selected, stable⟩

/-- The plan of all solutions in the solver's order is the one stable matching of hosts that prefer
    small indices. -/
theorem full_plan_stable (aligned : problem.Aligned) (distinct : problem.Distinct)
    {solutions : List (Nat × Nat)} (enumerated : problem.Enumerated solutions)
    (ordered : solutions.Pairwise Lexicographic) :
    ∃ selection stable, select problem solutions = .ok selection ∧
      selection.coordinationResultsStr = encode selection.plan ∧
      selection.plan = stable.map problem.names ∧ problem.StablePlan stable ∧
      ∀ other, problem.StablePlan other → other.Perm stable := by
  obtain ⟨selection, selected, plan, text, _⟩ := select_eq (sound_inRange aligned (enumerated_sound enumerated))
  have stable := directPlan_stable aligned
  refine ⟨selection, problem.directPlan, selected, text, ?_, stable, fun other known =>
    stablePlan_perm aligned stable known⟩
  rw [plan, greedy_eq_directPlan aligned distinct enumerated ordered]

theorem full_plan_stable_of_two :
    ∃ selection stable, select twoByTwo [(0, 1), (1, 0)] = .ok selection ∧ stable.length = 2 ∧
      twoByTwo.StablePlan stable := by
  have direct : twoByTwo.directPlan.length = 2 := by decide
  obtain ⟨selection, stable, selected, _, _, isStable, unique⟩ :=
    full_plan_stable twoByTwo_aligned twoByTwo_distinct twoByTwo_enumerated twoByTwo_ordered
  have size := (unique twoByTwo.directPlan (directPlan_stable twoByTwo_aligned)).length_eq
  exact ⟨selection, stable, selected, size.symm.trans direct, isStable⟩

end FogNetProof.Rounds
