import FogNet.Kernel.Objects
import FogNet.Plan.Decoding

namespace FogNetModel

open Kernel

/-- Five strings. A `Char` stands for one `char` of the source, which is a byte. -/
structure SampleApp where
  assignment : Vector (List Char) 5
  deriving DecidableEq

def SampleApp.new : SampleApp := ⟨Vector.replicate 5 []⟩

structure CoordinationResult where
  coordinationResults : List Nat

namespace CoordinationResult

/-- Index `j` of both arrays; the arrays check no bounds, so outside there is no meaning to it. -/
def copySlot (appAssignment copy : SampleApp) (j : Nat) : Except Fault SampleApp :=
  if bound : j < 5 then
    .ok { copy with assignment := copy.assignment.set j appAssignment.assignment[j] }
  else .error .outOfRange

/-- The inner loop. An array of strings read as a string is its first one, and so is its length. -/
def copyAssignment (appAssignment : SampleApp) : Except Fault SampleApp :=
  (List.range appAssignment.assignment[0].length).foldlM (copySlot appAssignment) SampleApp.new

/-- The copy constructor, with the objects allocated before it and after it. -/
def dup (objects : List SampleApp) (r : CoordinationResult) :
    Except Fault (List SampleApp × CoordinationResult) := do
  let (after, coordinationResults) ←
    r.coordinationResults.foldlM (cloneStep copyAssignment .nullPointer) (objects, [])
  return (after, { coordinationResults := coordinationResults })

end CoordinationResult

/-- The first string is no longer than the array, and every slot that its length does not reach is
    empty. -/
def SampleApp.LengthCovers (app : SampleApp) : Prop :=
  app.assignment[0].length ≤ 5 ∧
    ∀ (j : Nat) (_ : j < 5), app.assignment[0].length ≤ j → app.assignment[j] = []

/-- The duplicate refers to new objects with the same contents, and so does its own duplicate. -/
def DeepCopied (objects : List SampleApp) (r : CoordinationResult) (apps : List SampleApp) : Prop :=
  ∃ after copy, CoordinationResult.dup objects r = .ok (after, copy) ∧ objects <+: after ∧
    (∀ pointer ∈ copy.coordinationResults, objects.length ≤ pointer) ∧
    Refers after copy.coordinationResults apps ∧
    ∃ last again, CoordinationResult.dup after copy = .ok (last, again) ∧
      Refers last again.coordinationResults apps

end FogNetModel

namespace FogNetProof.Results

open FogNetModel FogNetModel.CoordinationResult Kernel FogNetProof.Plans

theorem slots_ext {left right : SampleApp}
    (same : ∀ (j : Nat) (_ : j < 5), left.assignment[j] = right.assignment[j]) : left = right := by
  cases left
  cases right
  exact congrArg SampleApp.mk (Vector.ext same)

/-- What the inner loop has made after `count` turns. -/
def copiedBelow (app copy : SampleApp) (count : Nat) : SampleApp :=
  ⟨Vector.ofFn fun j : Fin 5 => if j.val < count then app.assignment[j] else copy.assignment[j]⟩

theorem copiedBelow_slot (app copy : SampleApp) (count : Nat) {j : Nat} (bound : j < 5) :
    (copiedBelow app copy count).assignment[j] =
      if j < count then app.assignment[j] else copy.assignment[j] := by
  simp [copiedBelow]

theorem copySlot_below (app copy : SampleApp) {count : Nat} (bound : count < 5) :
    copySlot app (copiedBelow app copy count) count = .ok (copiedBelow app copy (count + 1)) := by
  rw [copySlot, dif_pos bound]
  refine congrArg Except.ok (slots_ext fun j inside => ?_)
  rw [copiedBelow_slot app copy _ inside, Vector.getElem_set, copiedBelow_slot app copy count inside]
  by_cases here : count = j
  · subst here
    simp
  · have same : j < count + 1 ↔ j < count := by omega
    simp only [here, if_false, same]

/-- The loop copies a slot a turn and leaves the array when its count is greater than five. The
    induction is on the turns. -/
theorem copyLoop (app copy : SampleApp) (count : Nat) :
    (List.range count).foldlM (copySlot app) copy =
      if count ≤ 5 then .ok (copiedBelow app copy count) else .error .outOfRange := by
  induction count with
  | zero =>
    have nothing : copiedBelow app copy 0 = copy := by simp [copiedBelow]
    rw [nothing]
    rfl
  | succ count ih =>
    rw [List.range_succ, List.foldlM_append, ih]
    by_cases bound : count < 5
    · rw [if_pos (Nat.le_of_lt bound), if_pos (Nat.succ_le_of_lt bound)]
      simp [Bind.bind, Except.bind, Pure.pure, Except.pure, copySlot_below app copy bound]
    · rw [if_neg (by omega : ¬ count + 1 ≤ 5)]
      by_cases last : count ≤ 5
      · simp [last, Bind.bind, Except.bind, copySlot, bound]
      · simp [last, Bind.bind, Except.bind]

theorem copyAssignment_eq_self {app : SampleApp} :
    copyAssignment app = .ok app ↔ app.LengthCovers := by
  rw [copyAssignment, copyLoop, SampleApp.LengthCovers]
  by_cases short : app.assignment[0].length ≤ 5
  · rw [if_pos short, Except.ok.injEq, and_iff_right short]
    constructor
    · intro same j bound beyond
      have slot := congrArg (fun copy : SampleApp => copy.assignment[j]) same
      rw [copiedBelow_slot app _ _ bound, if_neg (Nat.not_lt.mpr beyond)] at slot
      simpa [SampleApp.new] using slot.symm
    · intro empty
      refine slots_ext fun j inside => ?_
      rw [copiedBelow_slot app _ _ inside]
      by_cases copied : j < app.assignment[0].length
      · simp [copied]
      · simp [copied, SampleApp.new, empty j inside (Nat.le_of_not_lt copied)]
  · simp [short]

theorem dup_eq {objects apps : List SampleApp} {r : CoordinationResult}
    (refers : Refers objects r.coordinationResults apps) :
    dup objects r = (apps.mapM copyAssignment).map fun copies =>
      (objects ++ copies, ⟨List.range' objects.length copies.length⟩) := by
  rw [dup, cloneAll_eq refers]
  cases apps.mapM copyAssignment <;> rfl

/-- Duplicating is a deep copy exactly when, in every object, the length of the first string covers
    the array. -/
theorem deep_copied_iff {objects apps : List SampleApp} {r : CoordinationResult}
    (refers : Refers objects r.coordinationResults apps) :
    DeepCopied objects r apps ↔ ∀ app ∈ apps, app.LengthCovers := by
  have faithful : (∀ app ∈ apps, app.LengthCovers) ↔ apps.mapM copyAssignment = .ok apps := by
    simp only [mapM_eq_self_iff, copyAssignment_eq_self]
  rw [faithful]
  constructor
  · rintro ⟨after, copy, duplicated, _, _, contents, _⟩
    rw [dup_eq refers] at duplicated
    cases copied : apps.mapM copyAssignment with
    | error fault =>
      rw [copied] at duplicated
      cases duplicated
    | ok copies =>
      rw [copied] at duplicated
      cases duplicated
      rw [(refers_allocated objects copies).unique contents]
  · intro copied
    have allocated := refers_allocated objects apps
    have again := refers_allocated (objects ++ apps) apps
    refine ⟨objects ++ apps, ⟨List.range' objects.length apps.length⟩, ?_, List.prefix_append _ _,
      fun pointer member => (List.mem_range'_1.mp member).1, allocated, (objects ++ apps) ++ apps,
      ⟨List.range' (objects ++ apps).length apps.length⟩, ?_, again⟩
    · rw [dup_eq refers, copied]
      rfl
    · rw [dup_eq (r := ⟨List.range' objects.length apps.length⟩) allocated, copied]
      rfl

def assigned (first : List Char) : SampleApp := ⟨#v[first, ['f'], [], [], []]⟩

theorem deep_copied_two :
    DeepCopied [assigned ['a', 'b']] ⟨[0, 0]⟩ [assigned ['a', 'b'], assigned ['a', 'b']] := by
  have refers : Refers [assigned ['a', 'b']] [0, 0] [assigned ['a', 'b'], assigned ['a', 'b']] := rfl
  refine (deep_copied_iff refers).mpr fun app member => ?_
  obtain rfl : app = assigned ['a', 'b'] := by simpa using member
  unfold SampleApp.LengthCovers
  decide

/-- A host's full name in the first slot makes the loop leave the array. -/
theorem mobile_name_overruns :
    ¬ ∀ (objects apps : List SampleApp) (r : CoordinationResult),
      Refers objects r.coordinationResults apps → DeepCopied objects r apps := by
  intro always
  let app := assigned (Device.mk .mobileHost 0).getFullName
  have refers : Refers [app] [0] [app] := rfl
  obtain ⟨after, copy, duplicated, _⟩ := always [app] [app] ⟨[0]⟩ refers
  have overrun : (dup [app] ⟨[0]⟩).isOk = false := by decide
  rw [duplicated] at overrun
  cases overrun

end FogNetProof.Results
