import FogNet.Text.Search

namespace FogNetModel

inductive HostKind where
  | mobileHost
  | cloudHost
  | fogHost
  deriving DecidableEq, Repr

def HostKind.getName : HostKind → List Char
  | .mobileHost => ['m', 'o', 'b', 'i', 'l', 'e', 'H', 'o', 's', 't']
  | .cloudHost => ['c', 'l', 'o', 'u', 'd', 'H', 'o', 's', 't']
  | .fogHost => ['f', 'o', 'g', 'H', 'o', 's', 't']

structure Device where
  kind : HostKind
  index : Nat
  deriving DecidableEq, Repr

def Device.getName (device : Device) : List Char := device.kind.getName

/-- The vector's name followed by the index in brackets. -/
def Device.getFullName (device : Device) : List Char :=
  device.getName ++ '[' :: (Nat.toDigits 10 device.index ++ [']'])

def Device.Mobile (device : Device) : Prop := device.kind = .mobileHost

instance (device : Device) : Decidable device.Mobile := inferInstanceAs (Decidable (_ = _))

example : (Device.mk .fogHost 12).getFullName =
    ['f', 'o', 'g', 'H', 'o', 's', 't', '[', '1', '2', ']'] := by decide

end FogNetModel

namespace FogNetProof.Names

open FogNetModel

theorem digits_isDigit {index : Nat} {c : Char} (member : c ∈ Nat.toDigits 10 index) : c.isDigit :=
  Nat.isDigit_of_mem_toDigits (by decide) (by decide) member

theorem digits_injective {left right : Nat} (same : Nat.toDigits 10 left = Nat.toDigits 10 right) :
    left = right := by
  have decoded := congrArg (Nat.ofDigitChars 10 · 0) same
  simpa only [Nat.ofDigitChars_ten_toDigits] using decoded

theorem getName_plain (kind : HostKind) :
    '|' ∉ kind.getName ∧ '-' ∉ kind.getName ∧ '[' ∉ kind.getName ∧ ']' ∉ kind.getName := by
  cases kind <;> decide

theorem absent_of_plain {device : Device} {c : Char} (outside : c ∉ device.kind.getName)
    (opening : c ≠ '[') (closing : c ≠ ']') (nondigit : c.isDigit = false) :
    c ∉ device.getFullName := by
  intro member
  simp only [Device.getFullName, Device.getName, List.mem_append, List.mem_cons,
    List.not_mem_nil, or_false] at member
  rcases member with named | here | digit | here
  · exact outside named
  · exact opening here
  · rw [digits_isDigit digit] at nondigit
    cases nondigit
  · exact closing here

theorem vertical_absent (device : Device) : '|' ∉ device.getFullName :=
  absent_of_plain (getName_plain device.kind).1 (by decide) (by decide) (by decide)

theorem dash_absent (device : Device) : '-' ∉ device.getFullName :=
  absent_of_plain (getName_plain device.kind).2.1 (by decide) (by decide) (by decide)

theorem getFullName_nonempty (device : Device) : device.getFullName ≠ [] := by
  simp [Device.getFullName]

theorem opening_absent (index : Nat) : '[' ∉ Nat.toDigits 10 index ++ [']'] := by
  intro member
  rcases List.mem_append.mp member with digit | closing
  · exact absurd (digits_isDigit digit) (by decide)
  · exact absurd (List.mem_singleton.mp closing) (by decide)

theorem getName_suffix {shorter longer : HostKind} (isSuffix : shorter.getName <:+ longer.getName) :
    shorter = longer := by
  revert isSuffix
  cases shorter <;> cases longer <;> decide

theorem infix_closes {inner outer : Device} (inside : inner.getFullName <:+: outer.getFullName) :
    inner.getFullName <:+ outer.getFullName := by
  obtain ⟨before, after, whole⟩ := inside
  cases after using List.reverseRecOn with
  | nil => exact ⟨before, by simpa using whole⟩
  | append_singleton after last =>
    have body : before ++ inner.getFullName ++ after =
        outer.getName ++ '[' :: Nat.toDigits 10 outer.index := by
      have both : (before ++ inner.getFullName ++ after) ++ [last] =
          (outer.getName ++ '[' :: Nat.toDigits 10 outer.index) ++ [']'] := by
        simpa [Device.getFullName] using whole
      exact (List.append_inj' both rfl).1
    have member : ']' ∈ outer.getName ++ '[' :: Nat.toDigits 10 outer.index := by
      rw [← body]
      simp [Device.getFullName]
    rcases List.mem_append.mp member with named | digit
    · exact absurd named (getName_plain outer.kind).2.2.2
    · rcases List.mem_cons.mp digit with opening | digit
      · exact absurd opening (by decide)
      · exact absurd (digits_isDigit digit) (by decide)

/-- One full name occurs inside another only as the whole of it. -/
theorem getFullName_occurs {inner outer : Device} :
    inner.getFullName <:+: outer.getFullName ↔ inner = outer := by
  constructor
  · intro inside
    obtain ⟨before, whole⟩ := infix_closes inside
    have aligned : (before ++ inner.getName) ++ '[' :: (Nat.toDigits 10 inner.index ++ [']']) =
        outer.getName ++ '[' :: (Nat.toDigits 10 outer.index ++ [']']) := by
      simpa [Device.getFullName] using whole
    obtain ⟨names, tails⟩ := Text.split_at_last_separator (opening_absent _) (opening_absent _) aligned
    have kinds : inner.kind = outer.kind := getName_suffix ⟨before, names⟩
    have indices : inner.index = outer.index := digits_injective (List.append_cancel_right tails)
    cases inner
    cases outer
    simp_all
  · rintro rfl
    exact List.infix_rfl

theorem getFullName_injective : Function.Injective Device.getFullName :=
  fun _ _ same => getFullName_occurs.mp (same ▸ List.infix_rfl)

@[simp] theorem getFullName_inj {left right : Device} :
    left.getFullName = right.getFullName ↔ left = right := getFullName_injective.eq_iff

end FogNetProof.Names
