import FogNet.Matching.Greedy
import FogNet.Network.Devices

namespace FogNetModel

def entry (pair : List Char × List Char) : List Char := pair.1 ++ '-' :: (pair.2 ++ ['|'])

/-- The plan string: a vertical bar followed by one entry for each pair. -/
def encode (plan : List (List Char × List Char)) : List Char := '|' :: plan.flatMap entry

def fullNames (pair : Device × Device) : List Char × List Char :=
  (pair.1.getFullName, pair.2.getFullName)

/-- A plan for a network of hosts: mobile senders, immobile receivers, no host used twice. -/
structure Plan where
  pairs : List (Device × Device)
  senders_mobile : ∀ pair ∈ pairs, pair.1.Mobile
  receivers_immobile : ∀ pair ∈ pairs, ¬ pair.2.Mobile
  matching : Matching.IsMatching pairs

def Plan.names (plan : Plan) : List (List Char × List Char) := plan.pairs.map fullNames

end FogNetModel

namespace FogNetProof.Plans

open FogNetModel Matching

theorem encode_cons (pair : List Char × List Char) (plan : List (List Char × List Char)) :
    encode (pair :: plan) = '|' :: (pair.1 ++ '-' :: (pair.2 ++ encode plan)) := by
  simp [encode, entry]

theorem encode_append (left right : List (List Char × List Char)) :
    encode (left ++ right) = encode left ++ right.flatMap entry := by
  simp [encode]

theorem encode_ends (plan : List (List Char × List Char)) : ∃ before, encode plan = before ++ ['|'] := by
  induction plan with
  | nil => exact ⟨[], rfl⟩
  | cons pair plan ih =>
    obtain ⟨before, ends⟩ := ih
    exact ⟨'|' :: (pair.1 ++ '-' :: (pair.2 ++ before)), by simp [encode_cons, ends]⟩

theorem encode_around (before after : List (List Char × List Char)) (sender receiver : List Char) :
    ∃ front, encode before = front ++ ['|'] ∧
      encode (before ++ (sender, receiver) :: after) =
        front ++ '|' :: (sender ++ '-' :: (receiver ++ '|' :: after.flatMap entry)) := by
  obtain ⟨front, ends⟩ := encode_ends before
  refine ⟨front, ends, ?_⟩
  rw [encode_append, ends]
  simp [entry]

theorem mem_names {plan : Plan} {sender receiver : Device} :
    (sender.getFullName, receiver.getFullName) ∈ plan.names ↔ (sender, receiver) ∈ plan.pairs := by
  simp [Plan.names, fullNames]

theorem names_of_mem {plan : Plan} {pair : List Char × List Char} (member : pair ∈ plan.names) :
    ∃ sender receiver, (sender, receiver) ∈ plan.pairs ∧
      pair = (sender.getFullName, receiver.getFullName) := by
  obtain ⟨⟨sender, receiver⟩, inPlan, rfl⟩ := List.mem_map.mp member
  exact ⟨sender, receiver, inPlan, rfl⟩

end FogNetProof.Plans
