import FogNet.Coordinator.Problem
import FogNet.Matching.FirstFit
import FogNet.Plan.Decoding

namespace FogNetModel

open Matching

/-- The variables of the selection loop, with the pairs that it has written so far. -/
structure Selection where
  dupCheck : List (List Char)
  coordinationResultsStr : List Char
  numOfCoordSolutions : Nat
  plan : List (List Char × List Char)
  deriving DecidableEq

def Selection.start : Selection := ⟨[], ['|'], 0, []⟩

def Selection.write (selection : Selection) (aStr bStr : List Char) : Selection :=
  let resultStr := aStr ++ '-' :: bStr
  { dupCheck := bStr :: aStr :: selection.dupCheck
    coordinationResultsStr := selection.coordinationResultsStr ++ (resultStr ++ ['|'])
    numOfCoordSolutions := selection.numOfCoordSolutions + 1
    plan := selection.plan ++ [(aStr, bStr)] }

namespace CentralizedCoordinator

def hostAt (hosts : List (List Char)) (index : Nat) : Except Fault (List Char) :=
  match hosts[index]? with
  | some device => .ok device
  | none => .error .outOfRange

def selectStep (problem : Problem) (selection : Selection) (solution : Nat × Nat) :
    Except Fault Selection := do
  let aStr ← hostAt problem.aHosts solution.1
  let bStr ← hostAt problem.bHosts solution.2
  if aStr ∉ selection.dupCheck ∧ bStr ∉ selection.dupCheck then
    return selection.write aStr bStr
  else return selection

def select (problem : Problem) (solutions : List (Nat × Nat)) : Except Fault Selection :=
  solutions.foldlM (selectStep problem) Selection.start

end CentralizedCoordinator

namespace Problem

def aName (problem : Problem) (a : Nat) : List Char := problem.aHosts.getD a []

def bName (problem : Problem) (b : Nat) : List Char := problem.bHosts.getD b []

def names (problem : Problem) : Nat × Nat → List Char × List Char :=
  edgeOf problem.aName problem.bName

def InRange (problem : Problem) (solutions : List (Nat × Nat)) : Prop :=
  ∀ pair ∈ solutions, pair.1 < problem.aHosts.length ∧ pair.2 < problem.bHosts.length

def Distinct (problem : Problem) : Prop := (problem.aHosts ++ problem.bHosts).Nodup

end Problem

end FogNetModel

namespace FogNetProof.Rounds

open FogNetModel FogNetModel.CentralizedCoordinator Matching FogNetProof.Plans

theorem getElem?_of_bound {hosts : List (List Char)} {index : Nat} (bound : index < hosts.length) :
    hosts[index]? = some (hosts.getD index []) := by
  simp [bound]

theorem getD_injective {hosts : List (List Char)} (distinct : hosts.Nodup) {i j : Nat}
    (iBound : i < hosts.length) (jBound : j < hosts.length)
    (same : hosts.getD i [] = hosts.getD j []) : i = j :=
  (List.getElem?_inj iBound distinct).mp
    ((getElem?_of_bound iBound).trans (same ▸ (getElem?_of_bound jBound).symm))

theorem aName_injective {problem : Problem} (distinct : problem.Distinct) {i j : Nat}
    (iBound : i < problem.aHosts.length) (jBound : j < problem.aHosts.length)
    (same : problem.aName i = problem.aName j) : i = j :=
  getD_injective (List.nodup_append.mp distinct).1 iBound jBound same

theorem bName_injective {problem : Problem} (distinct : problem.Distinct) {i j : Nat}
    (iBound : i < problem.bHosts.length) (jBound : j < problem.bHosts.length)
    (same : problem.bName i = problem.bName j) : i = j :=
  getD_injective (List.nodup_append.mp distinct).2.1 iBound jBound same

theorem aName_ne_bName {problem : Problem} (distinct : problem.Distinct) {i j : Nat}
    (iBound : i < problem.aHosts.length) (jBound : j < problem.bHosts.length) :
    problem.aName i ≠ problem.bName j := by
  apply (List.nodup_append.mp distinct).2.2
  · exact List.mem_of_getElem? (getElem?_of_bound iBound)
  · exact List.mem_of_getElem? (getElem?_of_bound jBound)

theorem names_loopless {problem : Problem} (distinct : problem.Distinct)
    {solutions : List (Nat × Nat)} (inRange : problem.InRange solutions) :
    ∀ edge ∈ solutions.map problem.names, edge.1 ≠ edge.2 := by
  intro edge member
  obtain ⟨pair, offered, rfl⟩ := List.mem_map.mp member
  obtain ⟨aBound, bBound⟩ := inRange pair offered
  exact aName_ne_bName distinct aBound bBound

theorem selectStep_eq {problem : Problem} {solution : Nat × Nat}
    (aBound : solution.1 < problem.aHosts.length) (bBound : solution.2 < problem.bHosts.length)
    (selection : Selection) :
    selectStep problem selection solution = .ok
      (if (problem.names solution).1 ∉ selection.dupCheck ∧
          (problem.names solution).2 ∉ selection.dupCheck then
        selection.write (problem.names solution).1 (problem.names solution).2
      else selection) := by
  have aRead : hostAt problem.aHosts solution.1 = .ok (problem.names solution).1 := by
    rw [hostAt, getElem?_of_bound aBound]
    rfl
  have bRead : hostAt problem.bHosts solution.2 = .ok (problem.names solution).2 := by
    rw [hostAt, getElem?_of_bound bBound]
    rfl
  simp only [selectStep, aRead, bRead, Bind.bind, Except.bind, Pure.pure, Except.pure]
  split <;> rfl

/-- From any intermediate state the loop adds the greedy choice among the solutions left. The
    induction is on those solutions; the names used so far are the invariant. -/
theorem selectLoop {problem : Problem} {solutions : List (Nat × Nat)}
    (inRange : problem.InRange solutions) (selection : Selection) :
    ∃ used, solutions.foldlM (selectStep problem) selection = .ok
      { dupCheck := used
        coordinationResultsStr := selection.coordinationResultsStr ++
          (greedy selection.dupCheck (solutions.map problem.names)).flatMap entry
        numOfCoordSolutions := selection.numOfCoordSolutions +
          (greedy selection.dupCheck (solutions.map problem.names)).length
        plan := selection.plan ++ greedy selection.dupCheck (solutions.map problem.names) } := by
  induction solutions generalizing selection with
  | nil => exact ⟨selection.dupCheck, by simp [greedy, Pure.pure, Except.pure]⟩
  | cons solution solutions ih =>
    obtain ⟨aBound, bBound⟩ := inRange solution (by simp)
    have rest : problem.InRange solutions := fun pair member =>
      inRange pair (List.mem_cons_of_mem _ member)
    rw [List.foldlM_cons, selectStep_eq aBound bBound, List.map_cons, greedy]
    split
    · obtain ⟨used, reached⟩ :=
        ih rest (selection.write (problem.names solution).1 (problem.names solution).2)
      refine ⟨used, reached.trans ?_⟩
      simp [Selection.write, entry, Nat.add_assoc, Nat.add_comm 1]
    · obtain ⟨used, reached⟩ := ih rest selection
      exact ⟨used, by simpa [Bind.bind, Except.bind] using reached⟩

theorem select_eq {problem : Problem} {solutions : List (Nat × Nat)}
    (inRange : problem.InRange solutions) :
    ∃ selection, select problem solutions = .ok selection ∧
      selection.plan = greedy [] (solutions.map problem.names) ∧
      selection.coordinationResultsStr = encode selection.plan ∧
      selection.numOfCoordSolutions = selection.plan.length := by
  obtain ⟨used, reached⟩ := selectLoop inRange Selection.start
  exact ⟨_, reached, by simp [Selection.start], by simp [Selection.start, encode],
    by simp [Selection.start]⟩

theorem selected_eq {problem : Problem} {solutions : List (Nat × Nat)} (inRange : problem.InRange solutions)
    {selection : Selection} (selected : select problem solutions = .ok selection) :
    selection.plan = greedy [] (solutions.map problem.names) ∧
      selection.coordinationResultsStr = encode selection.plan := by
  obtain ⟨reached, isReached, plan, text, _⟩ := select_eq inRange
  cases Except.ok.inj (isReached.symm.trans selected)
  exact ⟨plan, text⟩

theorem sound_inRange {problem : Problem} (aligned : problem.Aligned) {solutions : List (Nat × Nat)}
    (sound : problem.Sound solutions) : problem.InRange solutions :=
  fun pair member => satisfies_bounds aligned (sound pair member)

theorem enumerated_sound {problem : Problem} {solutions : List (Nat × Nat)}
    (enumerated : problem.Enumerated solutions) : problem.Sound solutions :=
  fun pair member => (enumerated pair.1 pair.2).mp member

/-- The selection loop computes a maximal matching of at least half the optimum size. -/
theorem selection_maximal_matching {problem : Problem} (distinct : problem.Distinct)
    {solutions : List (Nat × Nat)} (inRange : problem.InRange solutions) :
    ∃ selection, select problem solutions = .ok selection ∧
      selection.coordinationResultsStr = encode selection.plan ∧
      selection.plan.Sublist (solutions.map problem.names) ∧
      IsMatching selection.plan ∧
      (∀ edge ∈ solutions.map problem.names,
        edge.1 ∈ endpoints selection.plan ∨ edge.2 ∈ endpoints selection.plan) ∧
      (∀ other, (∀ edge ∈ other, edge ∈ solutions.map problem.names) → IsMatching other →
        other.length ≤ 2 * selection.plan.length) ∧
      selection.numOfCoordSolutions = selection.plan.length ∧
      (solutions ≠ [] → 1 ≤ selection.numOfCoordSolutions) := by
  obtain ⟨selection, reached, plan, text, count⟩ := select_eq inRange
  refine ⟨selection, reached, text, ?_, ?_, ?_, ?_, count, ?_⟩
  · rw [plan]
    exact greedy_sublist _ _
  · rw [plan]
    exact greedy_isMatching _ (names_loopless distinct inRange)
  · intro edge offered
    rw [plan]
    simpa using greedy_maximal [] offered
  · intro other drawn matching
    rw [plan]
    exact greedy_half_optimal drawn matching
  · intro offered
    rw [count, plan]
    exact greedy_nonempty (by simpa using offered)

/-- Two hosts on each side, all in one place. -/
def twoByTwo : Problem := ⟨[['a'], ['b']], [0, 0], [0, 0], [['c'], ['d']], [0, 0], [0, 0]⟩

theorem twoByTwo_distinct : twoByTwo.Distinct := by
  unfold Problem.Distinct
  decide

theorem twoByTwo_repeated : twoByTwo.InRange [(0, 1), (1, 1), (0, 1), (1, 0)] := by
  unfold Problem.InRange
  decide

theorem selection_of_repeated :
    ∃ selection, select twoByTwo [(0, 1), (1, 1), (0, 1), (1, 0)] = .ok selection ∧
      IsMatching selection.plan ∧ 1 ≤ selection.numOfCoordSolutions := by
  obtain ⟨selection, reached, _, _, matching, _, _, _, some⟩ :=
    selection_maximal_matching twoByTwo_distinct twoByTwo_repeated
  exact ⟨selection, reached, matching, some (by simp)⟩

end FogNetProof.Rounds
