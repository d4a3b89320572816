import FogNet.Matching.Assign
import Mathlib.Logic.Function.Basic

namespace Kernel

open Matching

/-- The pointers of the gates: the input an output leads to, and the output that leads to an input. -/
structure Wires (O I : Type*) where
  nextGate : O → Option I
  previousGate : I → Option O

inductive ConnectError where
  | alreadyConnected
  deriving DecidableEq, Repr

variable {O I : Type*}

/-- The two pointers of every connection point at each other. -/
def Wires.Agree (wires : Wires O I) : Prop :=
  ∀ source target, wires.nextGate source = some target ↔ wires.previousGate target = some source

def Wires.unconnected : Wires O I := ⟨fun _ => none, fun _ => none⟩

theorem Wires.unconnected_agree : (Wires.unconnected : Wires O I).Agree := by
  simp [Wires.Agree, Wires.unconnected]

variable [DecidableEq O] [DecidableEq I]

def Wires.single (source : O) (target : I) : Wires O I where
  nextGate := fun output => if output = source then some target else none
  previousGate := fun input => if input = target then some source else none

theorem Wires.single_agree (source : O) (target : I) : (Wires.single source target).Agree := by
  intro output input
  simp only [Wires.single, Option.ite_none_right_eq_some, Option.some.injEq]
  exact ⟨fun ⟨isSource, isTarget⟩ => ⟨isTarget.symm, isSource.symm⟩,
    fun ⟨isTarget, isSource⟩ => ⟨isSource.symm, isTarget.symm⟩⟩

/-- Clear both pointers of the connection that leaves `gate`; nothing to do when there is none. -/
def Wires.disconnect (wires : Wires O I) (gate : O) : Wires O I :=
  match wires.nextGate gate with
  | none => wires
  | some target =>
    { nextGate := Function.update wires.nextGate gate none
      previousGate := Function.update wires.previousGate target none }

/-- Set both pointers; refused when either gate is connected already. -/
def Wires.connectTo (wires : Wires O I) (source : O) (target : I) : Except ConnectError (Wires O I) :=
  if wires.nextGate source = none ∧ wires.previousGate target = none then
    .ok { nextGate := Function.update wires.nextGate source (some target)
          previousGate := Function.update wires.previousGate target (some source) }
  else .error .alreadyConnected

def Wires.reconnect (wires : Wires O I) (source : O) (target : I) : Except ConnectError (Wires O I) :=
  let freed := match wires.previousGate target with
    | some previous => wires.disconnect previous
    | none => wires
  (freed.disconnect source).connectTo source target

namespace Wires.Agree

variable {wires : Wires O I}

omit [DecidableEq O] [DecidableEq I] in
theorem source_unique (agree : wires.Agree) {left right : O} {target : I}
    (first : wires.nextGate left = some target) (second : wires.nextGate right = some target) :
    left = right := by
  rw [agree] at first second
  exact Option.some.inj (first.symm.trans second)

def matching (agree : wires.Agree) : PartialMatching O I where
  pairs := {pair | wires.nextGate pair.1 = some pair.2}
  receiver_unique := fun left right => Option.some.inj (left.symm.trans right)
  sender_unique := fun left right => agree.source_unique left right

omit [DecidableEq O] [DecidableEq I] in
@[simp] theorem mem_matching (agree : wires.Agree) {source : O} {target : I} :
    (source, target) ∈ agree.matching.pairs ↔ wires.nextGate source = some target := Iff.rfl

omit [DecidableEq O] [DecidableEq I] in
theorem eq_of_matching {other : Wires O I} (agree : wires.Agree) (otherAgree : other.Agree)
    (same : agree.matching = otherAgree.matching) : wires = other := by
  have next : ∀ source target,
      wires.nextGate source = some target ↔ other.nextGate source = some target := by
    intro source target
    rw [← agree.mem_matching, same, otherAgree.mem_matching]
  obtain ⟨wiresNext, wiresPrevious⟩ := wires
  obtain ⟨otherNext, otherPrevious⟩ := other
  congr
  · funext source
    exact Option.ext fun target => next source target
  · funext target
    refine Option.ext fun source => ?_
    rw [← agree, ← otherAgree]
    exact next source target

theorem disconnect (agree : wires.Agree) (gate : O) : (wires.disconnect gate).Agree := by
  intro source target
  unfold Wires.disconnect
  cases connected : wires.nextGate gate with
  | none => exact agree source target
  | some old =>
    simp only [Function.update_apply]
    by_cases fromGate : source = gate
    · subst fromGate
      by_cases toOld : target = old
      · simp [toOld]
      · have notBack : wires.previousGate target ≠ some source := by
          rw [Ne, ← agree, connected]
          simpa using fun same => toOld same.symm
        simp [toOld, notBack]
    · by_cases toOld : target = old
      · subst toOld
        have notThere : wires.nextGate source ≠ some target := fun there =>
          fromGate (agree.source_unique there connected)
        simp [fromGate, notThere]
      · simp only [fromGate, toOld, if_false]
        exact agree source target

omit [DecidableEq O] [DecidableEq I] in
theorem nextGate_none_of_unmatched (agree : wires.Agree) {target : I}
    (free : ∀ source, wires.nextGate source ≠ some target) : wires.previousGate target = none := by
  cases back : wires.previousGate target with
  | none => rfl
  | some source => exact absurd ((agree source target).mpr back) (free source)

end Wires.Agree

theorem Wires.disconnect_nextGate (wires : Wires O I) (gate source : O) :
    (wires.disconnect gate).nextGate source = if source = gate then none else wires.nextGate source := by
  unfold Wires.disconnect
  cases connected : wires.nextGate gate with
  | none =>
    by_cases here : source = gate
    · simp [here, connected]
    · simp [here]
  | some old => simp [Function.update_apply]

theorem Wires.Agree.disconnect_matching {wires : Wires O I} (agree : wires.Agree) (gate : O) :
    (agree.disconnect gate).matching = agree.matching.release gate := by
  ext source target
  rw [mem_matching, PartialMatching.mem_release, mem_matching, disconnect_nextGate]
  by_cases here : source = gate <;> simp [here]

theorem Wires.Agree.connectTo {wires : Wires O I} (agree : wires.Agree) {source : O} {target : I}
    (free : wires.nextGate source = none) (idle : wires.previousGate target = none) :
    ∃ after, wires.connectTo source target = .ok after ∧ after.Agree ∧
      ∀ gate, after.nextGate gate = if gate = source then some target else wires.nextGate gate := by
  refine ⟨_, if_pos ⟨free, idle⟩, ?_, fun gate => by simp [Function.update_apply]⟩
  intro output input
  simp only [Function.update_apply]
  by_cases fromSource : output = source
  · subst fromSource
    by_cases toTarget : input = target
    · simp [toTarget]
    · have notBack : wires.previousGate input ≠ some output := by
        rw [Ne, ← agree, free]
        simp
      simp [toTarget, Ne.symm toTarget, notBack]
  · by_cases toTarget : input = target
    · subst toTarget
      have notThere : wires.nextGate output ≠ some input := by
        rw [Ne, agree, idle]
        simp
      simp [fromSource, Ne.symm fromSource, notThere]
    · simp only [fromSource, toTarget, if_false]
      exact agree output input

/-- Reconnecting never meets a connected gate, and carries out the assignment of the pair. -/
theorem Wires.Agree.reconnect {wires : Wires O I} (agree : wires.Agree) (source : O) (target : I) :
    ∃ (after : Wires O I) (afterAgree : after.Agree), wires.reconnect source target = .ok after ∧
      afterAgree.matching = agree.matching.assign source target := by
  obtain ⟨freed, freedAgree, freedIs, freedNext⟩ : ∃ freed : Wires O I, freed.Agree ∧
      (match wires.previousGate target with
        | some previous => wires.disconnect previous
        | none => wires) = freed ∧
      ∀ gate other, freed.nextGate gate = some other ↔
        wires.nextGate gate = some other ∧ other ≠ target := by
    cases back : wires.previousGate target with
    | none =>
      refine ⟨wires, agree, rfl, fun gate other => ⟨fun there => ⟨there, ?_⟩, And.left⟩⟩
      rintro rfl
      rw [agree, back] at there
      cases there
    | some previous =>
      have forward : wires.nextGate previous = some target := (agree previous target).mpr back
      refine ⟨wires.disconnect previous, agree.disconnect previous, rfl, fun gate other => ?_⟩
      rw [disconnect_nextGate]
      by_cases here : gate = previous
      · subst here
        simp [forward, eq_comm]
      · simp only [here, if_false]
        refine ⟨fun there => ⟨there, ?_⟩, And.left⟩
        rintro rfl
        exact here (agree.source_unique there forward)
  have loose : (freed.disconnect source).previousGate target = none := by
    apply (freedAgree.disconnect source).nextGate_none_of_unmatched
    intro gate there
    rw [disconnect_nextGate] at there
    by_cases here : gate = source
    · simp [here] at there
    · simp only [here, if_false] at there
      exact ((freedNext gate target).mp there).2 rfl
  have unplugged : (freed.disconnect source).nextGate source = none := by
    simp [disconnect_nextGate]
  obtain ⟨after, connected, afterAgree, afterNext⟩ :=
    (freedAgree.disconnect source).connectTo unplugged loose
  refine ⟨after, afterAgree, ?_, ?_⟩
  · rw [Wires.reconnect, freedIs]
    exact connected
  · ext gate other
    rw [mem_matching, PartialMatching.mem_assign, mem_matching, afterNext, disconnect_nextGate]
    by_cases here : gate = source
    · simp [here, eq_comm]
    · simp [here, freedNext]

end Kernel
