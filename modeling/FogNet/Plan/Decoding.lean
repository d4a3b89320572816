import FogNet.Plan.Encoding
import FogNet.Text.Search

namespace FogNetModel

inductive Fault where
  | readOutsideString
  | nullPointer
  | alreadyConnected
  | outOfRange
  deriving DecidableEq, Repr

namespace LocalCoordinator

open Text

inductive Role where
  | idle
  | sender (destination : List Char)
  | receiver (peer : List Char)
  deriving DecidableEq, Repr

/-- A search result that the code uses without a check. -/
def deref (pointer : Option Nat) : Except Fault Nat :=
  match pointer with
  | some position => .ok position
  | none => .error .nullPointer

/-- The branch that plays the sender: the name between the next dash and the bar after it. -/
def parseSender (actions : List Char) (pch : Nat) : Except Fault Role := do
  let dash ← deref (strchr actions pch '-')
  let afterDash := dash + 1
  let vertical ← deref (strchr actions afterDash '|')
  return .sender (slice actions afterDash vertical)

/-- The branch that plays the receiver: back to the bar in front, then up to the next dash. -/
def parseReceiver (actions : List Char) (pch : Nat) : Except Fault Role :=
  match scanBack actions '|' pch with
  | none => .error .readOutsideString
  | some bar => do
    let vertical ← deref (strchr actions bar '|')
    let pch2 := vertical + 1
    let pch3 ← deref (strchr actions pch2 '-')
    return .receiver (slice actions pch2 pch3)

def parse (actions device : List Char) : Except Fault Role :=
  match strstr actions device with
  | none => .ok .idle
  | some 0 => .error .readOutsideString
  | some (before + 1) =>
    if actions[before]? = some '|' then parseSender actions (before + 1)
    else parseReceiver actions (before + 1)

end LocalCoordinator

end FogNetModel

namespace FogNetProof.Plans

open FogNetModel FogNetModel.LocalCoordinator Text Matching

theorem bind_ok {A B : Type} {computed : Except Fault A} {next : A → Except Fault B} {result : B}
    (bound : computed >>= next = .ok result) :
    ∃ value, computed = .ok value ∧ next value = .ok result := by
  cases computed with
  | error fault => cases bound
  | ok value => exact ⟨value, rfl, bound⟩

def Clean (name : List Char) : Prop := '|' ∉ name ∧ '-' ∉ name

/-- The role a name has by the first entry that holds it anywhere. -/
def roleIn (plan : List (List Char × List Char)) (device : List Char) : Role :=
  match plan.find? fun pair => device <:+: pair.1 ∨ device <:+: pair.2 with
  | none => .idle
  | some pair => if device <+: pair.1 then .sender pair.2 else .receiver pair.1

theorem strstr_entries {plan : List (List Char × List Char)} {device : List Char}
    (nonempty : device ≠ []) (clean : Clean device)
    (miss : ∀ pair ∈ plan, ¬ device <:+: pair.1 ∧ ¬ device <:+: pair.2) (rest : List Char) :
    strstr (plan.flatMap entry ++ rest) device =
      (strstr rest device).map (· + (plan.flatMap entry).length) := by
  induction plan with
  | nil => cases found : strstr rest device <;> simp [found]
  | cons pair plan ih =>
    have here := miss pair (by simp)
    have text : (pair :: plan).flatMap entry ++ rest =
        pair.1 ++ '-' :: (pair.2 ++ '|' :: (plan.flatMap entry ++ rest)) := by
      simp [entry]
    rw [text, strstr_skip nonempty clean.2 here.1 _, strstr_skip nonempty clean.1 here.2 _,
      ih fun other member => miss other (List.mem_cons_of_mem _ member)]
    simp only [Option.map_map]
    congr 1
    funext position
    simp only [Function.comp_apply, List.flatMap_cons, List.length_append, entry, List.length_cons,
      List.length_nil]
    omega

theorem strstr_encode {plan : List (List Char × List Char)} {device : List Char}
    (nonempty : device ≠ []) (clean : Clean device)
    (miss : ∀ pair ∈ plan, ¬ device <:+: pair.1 ∧ ¬ device <:+: pair.2) (rest : List Char) :
    strstr (encode plan ++ rest) device = (strstr rest device).map (· + (encode plan).length) := by
  have noBar : ¬ device <:+: [] := fun inside => nonempty (List.infix_nil.mp inside)
  have bar := strstr_skip nonempty clean.1 noBar (plan.flatMap entry ++ rest)
  simp only [List.nil_append, List.length_nil, Nat.zero_add] at bar
  rw [encode, List.cons_append, bar, strstr_entries nonempty clean miss, Option.map_map]
  congr 1

theorem parseSender_entry {front sender receiver rest : List Char} (senderClean : Clean sender)
    (receiverClean : Clean receiver) :
    parseSender (front ++ '|' :: (sender ++ '-' :: (receiver ++ '|' :: rest))) (front.length + 1) =
      .ok (.sender receiver) := by
  have dash := strchr_found (front ++ ['|']) senderClean.2 (receiver ++ '|' :: rest)
  have vertical := strchr_found (front ++ '|' :: (sender ++ ['-'])) receiverClean.1 rest
  have name := slice_found (front ++ '|' :: (sender ++ ['-'])) receiver ('|' :: rest)
  simp only [List.append_assoc, List.cons_append, List.nil_append, List.length_append,
    List.length_cons, List.length_nil] at dash vertical name
  have start : front.length + 1 + sender.length + 1 = front.length + (sender.length + (0 + 1) + 1) := by
    omega
  simp only [parseSender, dash, deref, start, vertical, name, Nat.zero_add, Bind.bind, Except.bind,
    Pure.pure, Except.pure]

/-- Anywhere inside an entry but at its start, the way back leads to the sender of the entry. -/
theorem parseReceiver_entry {front sender receiver rest : List Char} (senderClean : Clean sender)
    (receiverClean : Clean receiver) {offset : Nat}
    (inside : offset ≤ (sender ++ '-' :: receiver).length) :
    parseReceiver (front ++ '|' :: (sender ++ '-' :: (receiver ++ '|' :: rest)))
        (front.length + offset) = .ok (.receiver sender) := by
  have noBar : '|' ∉ sender ++ '-' :: receiver := by
    simp [senderClean.1, receiverClean.1]
  have back := scanBack_found front ('|' :: rest) noBar offset inside
  have nothing : '|' ∉ ([] : List Char) := List.not_mem_nil
  have vertical := strchr_found front nothing (sender ++ '-' :: (receiver ++ '|' :: rest))
  have dash := strchr_found (front ++ ['|']) senderClean.2 (receiver ++ '|' :: rest)
  have name := slice_found (front ++ ['|']) sender ('-' :: (receiver ++ '|' :: rest))
  simp only [List.append_assoc, List.cons_append, List.nil_append, List.length_append,
    List.length_cons, List.length_nil, Nat.add_zero, Nat.zero_add] at back vertical dash name
  simp only [parseReceiver, back, vertical, deref, dash, name, Bind.bind, Except.bind,
    Pure.pure, Except.pure]

theorem inside_entry (front rest : List Char) {sender receiver : List Char}
    (senderClean : Clean sender) (receiverClean : Clean receiver) {offset : Nat}
    (inside : offset < (sender ++ '-' :: receiver).length) :
    (front ++ '|' :: (sender ++ '-' :: (receiver ++ '|' :: rest)))[front.length + 1 + offset]? ≠
      some '|' := by
  have text : front ++ '|' :: (sender ++ '-' :: (receiver ++ '|' :: rest)) =
      (front ++ ['|']) ++ ((sender ++ '-' :: receiver) ++ '|' :: rest) := by simp
  rw [text, List.getElem?_append_right (by simp [Nat.add_assoc]), List.getElem?_append_left]
  · intro read
    have member := List.mem_of_getElem? read
    simp [senderClean.1, receiverClean.1] at member
  · simp only [List.length_append, List.length_cons, List.length_nil] at inside ⊢
    omega

theorem parse_at_start {front sender receiver rest device : List Char} (senderClean : Clean sender)
    (receiverClean : Clean receiver)
    (position : strstr (front ++ '|' :: (sender ++ '-' :: (receiver ++ '|' :: rest))) device =
      some (front.length + 1)) :
    parse (front ++ '|' :: (sender ++ '-' :: (receiver ++ '|' :: rest))) device =
      .ok (.sender receiver) := by
  have bar : (front ++ '|' :: (sender ++ '-' :: (receiver ++ '|' :: rest)))[front.length]? =
      some '|' := by simp
  simp only [parse, position, bar, if_true]
  exact parseSender_entry senderClean receiverClean

theorem parse_inside {front sender receiver rest device : List Char} (senderClean : Clean sender)
    (receiverClean : Clean receiver) (offset : Nat)
    (inside : offset + 1 < (sender ++ '-' :: receiver).length)
    (position : strstr (front ++ '|' :: (sender ++ '-' :: (receiver ++ '|' :: rest))) device =
      some (front.length + 1 + offset + 1)) :
    parse (front ++ '|' :: (sender ++ '-' :: (receiver ++ '|' :: rest))) device =
      .ok (.receiver sender) := by
  have start : front.length + 1 + offset + 1 = front.length + (offset + 2) := by omega
  have noBar := inside_entry front rest senderClean receiverClean
    (Nat.lt_of_succ_lt inside)
  simp only [parse, position, noBar, if_false]
  rw [start]
  exact parseReceiver_entry senderClean receiverClean (by omega)

/-- The parser reads the role given by the first entry that holds the device's name anywhere. -/
theorem parse_encode {plan : List (List Char × List Char)} {device : List Char}
    (nonempty : device ≠ []) (clean : Clean device)
    (names : ∀ pair ∈ plan, Clean pair.1 ∧ Clean pair.2) :
    parse (encode plan) device = .ok (roleIn plan device) := by
  have positive : 0 < device.length := List.length_pos_iff.mpr nonempty
  cases found : plan.find? fun pair => device <:+: pair.1 ∨ device <:+: pair.2 with
  | none =>
    have miss : ∀ pair ∈ plan, ¬ device <:+: pair.1 ∧ ¬ device <:+: pair.2 := by
      intro pair member
      simpa using List.find?_eq_none.mp found pair member
    have nowhere := strstr_encode nonempty clean miss []
    rw [List.append_nil, strstr_nil nonempty, Option.map_none] at nowhere
    rw [parse, nowhere, roleIn, found]
  | some pair =>
    obtain ⟨hit, before, after, split, passed⟩ := List.find?_eq_some_iff_append.mp found
    obtain ⟨sender, receiver⟩ := pair
    have cleanPair : Clean sender ∧ Clean receiver := names (sender, receiver) (by simp [split])
    have miss : ∀ pair ∈ before, ¬ device <:+: pair.1 ∧ ¬ device <:+: pair.2 := by
      intro pair member
      simpa using passed pair member
    obtain ⟨front, ends, text⟩ := encode_around before after sender receiver
    have size : (encode before).length = front.length + 1 := by simp [ends]
    have position := strstr_encode nonempty clean miss
      (sender ++ '-' :: (receiver ++ '|' :: after.flatMap entry))
    rw [ends, List.append_assoc, List.cons_append, List.nil_append, ← ends, size] at position
    have role : roleIn plan device =
        if device <+: sender then .sender receiver else .receiver sender := by
      simp only [roleIn, found]
    rw [role, split, text]
    by_cases inSender : device <:+: sender
    · obtain ⟨offset, first, fits, atStart⟩ :=
        strstr_hit ('-' :: (receiver ++ '|' :: after.flatMap entry)) inSender
      rw [first, Option.map_some] at position
      cases offset with
      | zero =>
        have isPrefix : device <+: sender := atStart.mp rfl
        rw [if_pos isPrefix]
        exact parse_at_start cleanPair.1 cleanPair.2 (by simpa using position)
      | succ offset =>
        have notPrefix : ¬ device <+: sender := fun isPrefix => by simpa using atStart.mpr isPrefix
        rw [if_neg notPrefix]
        apply parse_inside cleanPair.1 cleanPair.2 offset
        · simp only [List.length_append, List.length_cons]
          omega
        · rw [position]
          congr 1
          omega
    · have inReceiver : device <:+: receiver := by simpa [inSender] using hit
      have notPrefix : ¬ device <+: sender := fun isPrefix => inSender isPrefix.isInfix
      obtain ⟨offset, first, fits, _⟩ := strstr_hit ('|' :: after.flatMap entry) inReceiver
      rw [strstr_skip nonempty clean.2 inSender _, first, Option.map_some, Option.map_some] at position
      rw [if_neg notPrefix]
      apply parse_inside cleanPair.1 cleanPair.2 (sender.length + offset)
      · simp only [List.length_append, List.length_cons]
        omega
      · rw [position]
        congr 1
        omega

end FogNetProof.Plans
