import FogNet.Network.Devices
import Mathlib.Data.List.Nodup
import Mathlib.Data.List.Range
import Mathlib.Data.List.Perm.Basic

namespace FogNetModel

inductive Submodule where
  | host (device : Device)
  | centralizedCoordinator
  deriving DecidableEq, Repr

def coordinatorName : List Char :=
  ['c', 'e', 'n', 't', 'r', 'a', 'l', 'i', 'z', 'e', 'd', 'C', 'o', 'o', 'r', 'd', 'i', 'n', 'a', 't', 'o', 'r']

def Submodule.getName : Submodule → List Char
  | .host device => device.getName
  | .centralizedCoordinator => coordinatorName

def Submodule.getFullName : Submodule → List Char
  | .host device => device.getFullName
  | .centralizedCoordinator => coordinatorName

def vector (kind : HostKind) (size : Nat) : List Device := (List.range size).map (Device.mk kind)

def declaredHosts (numHosts numFogHosts numCloudHosts : Nat) : List Device :=
  vector .mobileHost numHosts ++ vector .cloudHost numCloudHosts ++ vector .fogHost numFogHosts

def declared (numHosts numFogHosts numCloudHosts : Nat) : List Submodule :=
  (declaredHosts numHosts numFogHosts numCloudHosts).map .host ++ [.centralizedCoordinator]

/-- A network of any size. The order of `submodules` is the fixed order of its submodule iterator. -/
structure FogNetwork where
  numHosts : Nat
  numFogHosts : Nat
  numCloudHosts : Nat
  submodules : List Submodule
  built : submodules.Perm (declared numHosts numFogHosts numCloudHosts)

namespace FogNetwork

def ofSizes (numHosts numFogHosts numCloudHosts : Nat) : FogNetwork :=
  ⟨numHosts, numFogHosts, numCloudHosts, declared numHosts numFogHosts numCloudHosts, .refl _⟩

def size (net : FogNetwork) : HostKind → Nat
  | .mobileHost => net.numHosts
  | .cloudHost => net.numCloudHosts
  | .fogHost => net.numFogHosts

def Holds (net : FogNetwork) (device : Device) : Prop := device.index < net.size device.kind

instance (net : FogNetwork) (device : Device) : Decidable (net.Holds device) :=
  inferInstanceAs (Decidable (_ < _))

def hosts (net : FogNetwork) : List Device :=
  declaredHosts net.numHosts net.numFogHosts net.numCloudHosts

/-- The coordinator's `action` gates in the order of the network's connections. -/
def actionGates (net : FogNetwork) : List Device :=
  vector .mobileHost net.numHosts ++ vector .fogHost net.numFogHosts ++
    vector .cloudHost net.numCloudHosts

def getModuleByPath (net : FogNetwork) (path : List Char) : Option Submodule :=
  net.submodules.find? fun submodule => submodule.getFullName = path

end FogNetwork

end FogNetModel

namespace FogNetProof.Names

open FogNetModel

@[simp] theorem mem_vector {kind : HostKind} {size : Nat} {device : Device} :
    device ∈ vector kind size ↔ device.kind = kind ∧ device.index < size := by
  obtain ⟨deviceKind, index⟩ := device
  simp only [vector, List.mem_map, List.mem_range, Device.mk.injEq]
  constructor
  · rintro ⟨i, bound, rfl, rfl⟩
    exact ⟨rfl, bound⟩
  · rintro ⟨rfl, bound⟩
    exact ⟨index, bound, rfl, rfl⟩

theorem vector_nodup (kind : HostKind) (size : Nat) : (vector kind size).Nodup :=
  List.Nodup.map (fun _ _ same => (Device.mk.inj same).2) List.nodup_range

theorem mem_actionGates {net : FogNetwork} {device : Device} :
    device ∈ net.actionGates ↔ net.Holds device := by
  obtain ⟨kind, index⟩ := device
  cases kind <;> simp [FogNetwork.actionGates, FogNetwork.Holds, FogNetwork.size]

theorem actionGates_nodup (net : FogNetwork) : net.actionGates.Nodup := by
  have apart : ∀ {left right : HostKind} {m n : Nat}, left ≠ right →
      List.Disjoint (vector left m) (vector right n) := by
    intro left right m n different device inLeft inRight
    exact different ((mem_vector.mp inLeft).1.symm.trans (mem_vector.mp inRight).1)
  refine List.Nodup.append (List.Nodup.append (vector_nodup _ _) (vector_nodup _ _) (apart ?_))
    (vector_nodup _ _) (List.disjoint_append_left.mpr ⟨apart ?_, apart ?_⟩) <;> decide

theorem actionGates_length (net : FogNetwork) :
    net.actionGates.length = net.numHosts + net.numFogHosts + net.numCloudHosts := by
  simp [FogNetwork.actionGates, vector, Nat.add_assoc]

theorem hosts_perm (net : FogNetwork) : net.hosts.Perm net.actionGates := by
  simp only [FogNetwork.hosts, declaredHosts, FogNetwork.actionGates, List.append_assoc]
  exact List.Perm.append_left _ List.perm_append_comm

theorem mem_hosts {net : FogNetwork} {device : Device} : device ∈ net.hosts ↔ net.Holds device := by
  rw [(hosts_perm net).mem_iff, mem_actionGates]

theorem submodules_perm (net : FogNetwork) :
    net.submodules.Perm (net.hosts.map .host ++ [.centralizedCoordinator]) := net.built

theorem mem_submodules {net : FogNetwork} {device : Device} :
    Submodule.host device ∈ net.submodules ↔ net.Holds device := by
  rw [(submodules_perm net).mem_iff, ← mem_hosts]
  simp

theorem submodules_nodup (net : FogNetwork) : net.submodules.Nodup := by
  rw [(submodules_perm net).nodup_iff]
  refine List.Nodup.append (List.Nodup.map (fun _ _ => Submodule.host.inj) ?_) (by simp) ?_
  · exact (hosts_perm net).nodup_iff.mpr (actionGates_nodup net)
  · simp [List.disjoint_singleton]

theorem coordinatorName_plain : '[' ∉ coordinatorName := by decide

theorem submodule_getFullName_injective {left right : Submodule}
    (same : left.getFullName = right.getFullName) : left = right := by
  have different : ∀ device : Device, device.getFullName ≠ coordinatorName := by
    intro device equal
    apply coordinatorName_plain
    rw [← equal]
    simp [Device.getFullName]
  cases left with
  | host device =>
    cases right with
    | host other => exact congrArg _ (getFullName_injective same)
    | centralizedCoordinator => exact absurd same (different device)
  | centralizedCoordinator =>
    cases right with
    | host other => exact absurd same.symm (different other)
    | centralizedCoordinator => rfl

theorem getModuleByPath_host {net : FogNetwork} {device : Device} (held : net.Holds device) :
    net.getModuleByPath device.getFullName = some (.host device) := by
  have present : (net.getModuleByPath device.getFullName).isSome := by
    rw [FogNetwork.getModuleByPath, List.find?_isSome]
    exact ⟨.host device, mem_submodules.mpr held, by simp [Submodule.getFullName]⟩
  obtain ⟨found, search⟩ := Option.isSome_iff_exists.mp present
  have named := List.find?_some search
  simp only [decide_eq_true_eq] at named
  have same : found = .host device := submodule_getFullName_injective named
  rw [search, same]

end FogNetProof.Names
