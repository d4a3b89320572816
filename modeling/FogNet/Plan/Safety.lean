import FogNet.Network.FogNetwork
import FogNet.Plan.Decoding

namespace FogNetModel.LocalCoordinator

open Text

/-- The sender branch from `pch` copies a nonempty name out of the string and reads nothing else. -/
def SenderWithin (actions : List Char) (pch : Nat) (destination : List Char) : Prop :=
  ∃ dash vertical, strchr actions pch '-' = some dash ∧ strchr actions (dash + 1) '|' = some vertical ∧
    pch ≤ dash ∧ dash + 1 < vertical ∧ vertical < actions.length ∧
    slice actions (dash + 1) vertical = destination

/-- The receiver branch from `pch` stops at a vertical bar in front of it and finds its dash. -/
def ReceiverWithin (actions : List Char) (pch : Nat) : Prop :=
  ∃ bar dash, scanBack actions '|' pch = some bar ∧ bar < pch ∧
    strchr actions bar '|' = some bar ∧ strchr actions (bar + 1) '-' = some dash ∧
    bar + 1 ≤ dash ∧ dash < actions.length

end FogNetModel.LocalCoordinator

namespace FogNetProof.Plans

open FogNetModel FogNetModel.LocalCoordinator Text Matching FogNetProof.Names

theorem deref_ok {pointer : Option Nat} {position : Nat} (read : deref pointer = .ok position) :
    pointer = some position := by
  cases pointer with
  | none => cases read
  | some found =>
    cases read
    rfl

theorem getElem?_lt {text : List Char} {position : Nat} {c : Char} (read : text[position]? = some c) :
    position < text.length :=
  (List.getElem?_eq_some_iff.mp read).1

theorem parseSender_within {actions : List Char} {pch : Nat} {role : Role}
    (parsed : parseSender actions pch = .ok role) :
    ∃ destination, role = .sender destination ∧
      (destination ≠ [] → SenderWithin actions pch destination) := by
  obtain ⟨dash, isDash, parsed⟩ := bind_ok parsed
  obtain ⟨vertical, isVertical, parsed⟩ := bind_ok parsed
  cases parsed
  have dashAt := strchr_reads (deref_ok isDash)
  have verticalAt := strchr_reads (deref_ok isVertical)
  refine ⟨_, rfl, fun nonempty => ⟨dash, vertical, deref_ok isDash, deref_ok isVertical, dashAt.1, ?_,
    getElem?_lt verticalAt.2, rfl⟩⟩
  by_contra short
  apply nonempty
  rw [slice, Nat.sub_eq_zero_of_le (by omega), List.take_zero]

theorem parseReceiver_within {actions : List Char} {pch : Nat} {role : Role}
    (parsed : parseReceiver actions pch = .ok role) (elsewhere : actions[pch]? ≠ some '|') :
    ReceiverWithin actions pch := by
  unfold parseReceiver at parsed
  split at parsed
  · cases parsed
  · rename_i bar back
    obtain ⟨vertical, isVertical, parsed⟩ := bind_ok parsed
    obtain ⟨dash, isDash, _⟩ := bind_ok parsed
    have barAt := scanBack_reads back
    have here := strchr_here barAt.2
    obtain rfl : bar = vertical := Option.some.inj (here.symm.trans (deref_ok isVertical))
    have dashAt := strchr_reads (deref_ok isDash)
    have before : bar ≠ pch := by
      rintro rfl
      exact elsewhere barAt.2
    exact ⟨bar, dash, back, by omega, here, deref_ok isDash, dashAt.1, getElem?_lt dashAt.2⟩

theorem strstr_inside {actions device : List Char} {pch : Nat} (nonempty : device ≠ [])
    (clean : Clean device) (found : strstr actions device = some pch) :
    pch + device.length ≤ actions.length ∧ actions[pch]? ≠ some '|' := by
  obtain ⟨rest, whole⟩ := strstr_occurs found
  have positive : 0 < device.length := List.length_pos_iff.mpr nonempty
  have size := congrArg List.length whole
  rw [List.length_append, List.length_drop] at size
  refine ⟨by omega, fun isBar => clean.1 ?_⟩
  have first : (actions.drop pch)[0]? = some '|' := by simpa using isBar
  rw [← whole, List.getElem?_append_left positive] at first
  exact List.mem_of_getElem? first

/-- What a parse of any string that meets no fault has read. -/
theorem parse_reads {actions device : List Char} {role : Role} {pch : Nat}
    (parsed : parse actions device = .ok role) (found : strstr actions device = some pch)
    (elsewhere : actions[pch]? ≠ some '|') : ∃ before, pch = before + 1 ∧
      if actions[before]? = some '|' then ∃ destination, role = .sender destination ∧
        (destination ≠ [] → SenderWithin actions pch destination)
      else ReceiverWithin actions pch := by
  rw [parse, found] at parsed
  cases pch with
  | zero => cases parsed
  | succ before =>
    refine ⟨before, rfl, ?_⟩
    dsimp only at parsed
    split
    · rename_i bar
      rw [if_pos bar] at parsed
      exact parseSender_within parsed
    · rename_i noBar
      rw [if_neg noBar] at parsed
      exact parseReceiver_within parsed elsewhere

theorem roleIn_sender {plan : List (List Char × List Char)} {device destination : List Char}
    (role : roleIn plan device = .sender destination) : ∃ pair ∈ plan, pair.2 = destination := by
  unfold roleIn at role
  split at role
  · cases role
  · rename_i pair found
    split at role
    · cases role
      exact ⟨pair, List.mem_of_find?_eq_some found, rfl⟩
    · cases role

/-- Whatever the names are, and wherever the device's name occurs first, the parser reads inside the
    string only, and the destination it copies is a receiver's name of the plan. -/
theorem parse_within {plan : List (List Char × List Char)} {device : List Char}
    (names : ∀ pair ∈ plan, (pair.1 ≠ [] ∧ Clean pair.1) ∧ (pair.2 ≠ [] ∧ Clean pair.2))
    (nonempty : device ≠ []) (clean : Clean device) :
    (∃ role, parse (encode plan) device = .ok role) ∧
    (∀ pch, strstr (encode plan) device = some pch →
      pch + device.length ≤ (encode plan).length ∧ ∃ before, pch = before + 1 ∧
        if (encode plan)[before]? = some '|' then ∃ pair ∈ plan, SenderWithin (encode plan) pch pair.2
        else ReceiverWithin (encode plan) pch) ∧
    ∀ destination, parse (encode plan) device = .ok (.sender destination) →
      (∃ pair ∈ plan, pair.2 = destination) ∧ ∀ net : FogNetwork,
        (∀ pair ∈ plan, ∃ host, net.Holds host ∧ pair.2 = host.getFullName) →
          ∃ host, net.getModuleByPath destination = some (.host host) := by
  have parsed := parse_encode nonempty clean fun pair member =>
    ⟨(names pair member).1.2, (names pair member).2.2⟩
  refine ⟨⟨_, parsed⟩, fun pch found => ?_, fun destination sends => ?_⟩
  · obtain ⟨fits, elsewhere⟩ := strstr_inside nonempty clean found
    obtain ⟨before, isBefore, reads⟩ := parse_reads parsed found elsewhere
    refine ⟨fits, before, isBefore, ?_⟩
    split
    · rename_i bar
      rw [if_pos bar] at reads
      obtain ⟨destination, isSender, within⟩ := reads
      obtain ⟨pair, planned, rfl⟩ := roleIn_sender isSender
      exact ⟨pair, planned, within (names pair planned).2.1⟩
    · rename_i noBar
      rw [if_neg noBar] at reads
      exact reads
  · obtain ⟨pair, planned, rfl⟩ := roleIn_sender (Except.ok.inj (parsed.symm.trans sends))
    refine ⟨⟨pair, planned, rfl⟩, fun net hosts => ?_⟩
    obtain ⟨host, held, named⟩ := hosts pair planned
    exact ⟨host, named ▸ getModuleByPath_host held⟩

theorem parse_within_partial :
    (∃ role, parse (encode [(['a', 'h'], ['f']), (['g'], ['h']), (['h'], ['f'])]) ['h'] = .ok role) ∧
      ReceiverWithin (encode [(['a', 'h'], ['f']), (['g'], ['h']), (['h'], ['f'])]) 2 := by
  have names : ∀ pair ∈ [(['a', 'h'], ['f']), (['g'], ['h']), (['h'], ['f'])],
      (pair.1 ≠ [] ∧ Clean pair.1) ∧ (pair.2 ≠ [] ∧ Clean pair.2) := by
    unfold Clean
    decide
  have clean : Clean ['h'] := by
    unfold Clean
    decide
  obtain ⟨parsed, reads, _⟩ := parse_within names (by decide) clean
  obtain ⟨_, before, isBefore, branch⟩ := reads 2 (by decide)
  obtain rfl : before = 1 := (Nat.succ.inj isBefore).symm
  exact ⟨parsed, branch⟩

end FogNetProof.Plans
