import FogNet.Kernel.NamedArray
import FogNet.Network.FogNetwork
import FogNet.Numeric.Truncation

namespace FogNetModel

open Kernel Numeric

/-- A position of the mobility model, in the two coordinates that the program reads. -/
structure Coord where
  x : ℚ
  y : ℚ
  deriving DecidableEq

structure ContextSync where
  device : List Char
  x : ℚ
  y : ℚ
  deriving DecidableEq

structure SavedMsg where
  name : List Char
  ctx : ContextSync
  deriving DecidableEq

/-- The constraint problem of a round: per host its device name and its truncated coordinates. -/
structure Problem where
  aHosts : List (List Char)
  aHostsX : List ℤ
  aHostsY : List ℤ
  bHosts : List (List Char)
  bHostsX : List ℤ
  bHostsY : List ℤ

namespace Problem

def within (left right : List ℤ) (a b : Nat) : Bool :=
  match left[a]?, right[b]? with
  | some u, some v => |u - v| ≤ 1000
  | _, _ => false

def nearbyX (problem : Problem) (a b : Nat) : Bool := within problem.aHostsX problem.bHostsX a b

def nearbyY (problem : Problem) (a b : Nat) : Bool := within problem.aHostsY problem.bHostsY a b

def differentHost (a b : Nat) : Bool := a != b

/-- The assignments of the index variables that meet every posted constraint. -/
def satisfies (problem : Problem) (a b : Nat) : Bool :=
  problem.nearbyX a b && problem.nearbyY a b && differentHost a b

def Sound (problem : Problem) (solutions : List (Nat × Nat)) : Prop :=
  ∀ pair ∈ solutions, problem.satisfies pair.1 pair.2 = true

instance (problem : Problem) (solutions : List (Nat × Nat)) : Decidable (problem.Sound solutions) :=
  inferInstanceAs (Decidable (∀ pair ∈ solutions, _))

def Enumerated (problem : Problem) (solutions : List (Nat × Nat)) : Prop :=
  ∀ a b, (a, b) ∈ solutions ↔ problem.satisfies a b = true

structure Aligned (problem : Problem) : Prop where
  aX : problem.aHostsX.length = problem.aHosts.length
  aY : problem.aHostsY.length = problem.aHosts.length
  bX : problem.bHostsX.length = problem.bHosts.length
  bY : problem.bHostsY.length = problem.bHosts.length

end Problem

namespace CentralizedCoordinator

def handleSync (participant : List SavedMsg) (ctx : ContextSync) : List SavedMsg :=
  setNamed SavedMsg.name participant { name := ctx.device, ctx := ctx }

/-- The submodules that are no mobile hosts. The cast of one without mobility throws. -/
def immobile (submodule : Submodule) : Option Device :=
  if submodule.getName ≠ HostKind.mobileHost.getName then
    match submodule with
    | .host device => some device
    | .centralizedCoordinator => none
  else none

def bDevices (net : FogNetwork) : List Device := net.submodules.filterMap immobile

def problem (net : FogNetwork) (participant : List SavedMsg) (position : Device → Coord) : Problem where
  aHosts := participant.map fun saved => saved.ctx.device
  aHostsX := participant.map fun saved => truncate saved.ctx.x
  aHostsY := participant.map fun saved => truncate saved.ctx.y
  bHosts := (bDevices net).map Device.getFullName
  bHostsX := (bDevices net).map fun device => truncate (position device).x
  bHostsY := (bDevices net).map fun device => truncate (position device).y

end CentralizedCoordinator

end FogNetModel

namespace FogNetProof.Rounds

open FogNetModel FogNetModel.CentralizedCoordinator Kernel Numeric FogNetProof.Names

theorem within_eq_true {left right : List ℤ} {a b : Nat} :
    Problem.within left right a b = true ↔
      ∃ u v, left[a]? = some u ∧ right[b]? = some v ∧ |u - v| ≤ 1000 := by
  unfold Problem.within
  cases left[a]? <;> cases right[b]? <;> simp

theorem satisfies_eq_true {problem : Problem} {a b : Nat} :
    problem.satisfies a b = true ↔
      problem.nearbyX a b = true ∧ problem.nearbyY a b = true ∧ a ≠ b := by
  simp [Problem.satisfies, Problem.differentHost, and_assoc]

theorem satisfies_bounds {problem : Problem} (aligned : problem.Aligned) {a b : Nat}
    (satisfied : problem.satisfies a b = true) :
    a < problem.aHosts.length ∧ b < problem.bHosts.length := by
  obtain ⟨u, v, left, right, _⟩ := within_eq_true.mp (satisfies_eq_true.mp satisfied).1
  obtain ⟨leftBound, _⟩ := List.getElem?_eq_some_iff.mp left
  obtain ⟨rightBound, _⟩ := List.getElem?_eq_some_iff.mp right
  rw [aligned.aX] at leftBound
  rw [aligned.bX] at rightBound
  exact ⟨leftBound, rightBound⟩

theorem problem_aligned (net : FogNetwork) (participant : List SavedMsg)
    (position : Device → Coord) : (problem net participant position).Aligned := by
  constructor <;> simp [problem]

theorem getName_mobile {device : Device} :
    device.getName = HostKind.mobileHost.getName ↔ device.Mobile := by
  simp only [Device.getName, Device.Mobile]
  cases device.kind <;> decide

theorem immobile_eq_some {submodule : Submodule} {device : Device} :
    immobile submodule = some device ↔ submodule = .host device ∧ ¬ device.Mobile := by
  cases submodule with
  | host other =>
    simp only [immobile, Submodule.getName, ne_eq, getName_mobile, Option.ite_none_right_eq_some,
      Option.some.injEq, Submodule.host.injEq]
    constructor
    · intro found
      exact ⟨found.2, found.2 ▸ found.1⟩
    · intro found
      exact ⟨found.1 ▸ found.2, found.1⟩
  | centralizedCoordinator => simp [immobile]

theorem mem_bDevices {net : FogNetwork} {device : Device} :
    device ∈ bDevices net ↔ net.Holds device ∧ ¬ device.Mobile := by
  simp [bDevices, immobile_eq_some, mem_submodules]

theorem bDevices_nodup (net : FogNetwork) : (bDevices net).Nodup := by
  refine List.Nodup.filterMap ?_ (submodules_nodup net)
  intro left right device first second
  rw [Option.mem_def, immobile_eq_some] at first second
  rw [first.1, second.1]

end FogNetProof.Rounds
