import Mathlib.Data.List.Infix

namespace Text

variable {α : Type*}

def slice (text : List α) (start stop : Nat) : List α :=
  (text.drop start).take (stop - start)

theorem slice_found (before word rest : List α) :
    slice (before ++ (word ++ rest)) before.length (before.length + word.length) = word := by
  simp [slice]

theorem prefix_of_prefix_append {needle rest : List α} (word : List α)
    (isPrefix : needle <+: word ++ rest) (fits : needle.length ≤ word.length) : needle <+: word :=
  List.prefix_of_prefix_length_le isPrefix (List.prefix_append word rest) fits

theorem prefix_before_separator {needle rest : List α} {sep : α} (word : List α)
    (absent : sep ∉ needle) (isPrefix : needle <+: word ++ sep :: rest) : needle <+: word := by
  apply prefix_of_prefix_append word isPrefix
  by_contra long
  have longer : word.length < needle.length := by omega
  obtain ⟨tail, equal⟩ := isPrefix
  have reached : (needle ++ tail)[word.length]? = some sep := by simp [equal]
  rw [List.getElem?_append_left longer] at reached
  exact absent (List.mem_of_getElem? reached)

/-- Texts that agree up to the first separator and behind it are the same on both sides of it. -/
theorem split_at_separator {left right leftRest rightRest : List α} {sep : α} (leftPlain : sep ∉ left)
    (rightPlain : sep ∉ right) (same : left ++ sep :: leftRest = right ++ sep :: rightRest) :
    left = right ∧ leftRest = rightRest := by
  rcases List.append_eq_append_iff.mp same with ⟨gap, rightIs, restIs⟩ | ⟨gap, leftIs, restIs⟩
  · cases gap with
    | nil => simp_all
    | cons c gap =>
      rw [List.cons_append, List.cons.injEq] at restIs
      exact absurd (rightIs ▸ restIs.1 ▸ by simp) rightPlain
  · cases gap with
    | nil => simp_all
    | cons c gap =>
      rw [List.cons_append, List.cons.injEq] at restIs
      exact absurd (leftIs ▸ restIs.1 ▸ by simp) leftPlain

/-- Texts that agree from the last separator on and before it are the same on both sides of it. -/
theorem split_at_last_separator {left right leftRest rightRest : List α} {sep : α}
    (leftPlain : sep ∉ leftRest) (rightPlain : sep ∉ rightRest)
    (same : left ++ sep :: leftRest = right ++ sep :: rightRest) : left = right ∧ leftRest = rightRest := by
  have mirrored : leftRest.reverse ++ sep :: left.reverse = rightRest.reverse ++ sep :: right.reverse := by
    simpa using congrArg List.reverse same
  obtain ⟨rests, fronts⟩ := split_at_separator (by simpa using leftPlain) (by simpa using rightPlain) mirrored
  exact ⟨List.reverse_injective fronts, List.reverse_injective rests⟩

variable [DecidableEq α]

/-- Index of the first occurrence of `needle`, as C's `strstr` returns it. -/
def strstr : List α → List α → Option Nat
  | [], needle => if needle = [] then some 0 else none
  | c :: text, needle =>
    if needle <+: c :: text then some 0 else (strstr text needle).map (· + 1)

/-- Index of the first `c` at or after `start`, as C's `strchr` returns it. -/
def strchr (text : List α) (start : Nat) (c : α) : Option Nat :=
  ((text.drop start).idxOf? c).map (start + ·)

/-- Walk towards the front until `c` is read; `none` when the walk leaves the text. -/
def scanBack (text : List α) (c : α) : Nat → Option Nat
  | 0 => if text[0]? = some c then some 0 else none
  | i + 1 => if text[i + 1]? = some c then some (i + 1) else scanBack text c i

theorem strstr_skip {needle word : List α} {sep : α} (nonempty : needle ≠ [])
    (absent : sep ∉ needle) (miss : ¬ needle <:+: word) (rest : List α) :
    strstr (word ++ sep :: rest) needle = (strstr rest needle).map (· + (word.length + 1)) := by
  induction word with
  | nil =>
    have notHere : ¬ needle <+: sep :: rest := fun here =>
      nonempty (List.prefix_nil.mp (prefix_before_separator [] absent here))
    simp [strstr, notHere]
  | cons c word ih =>
    have notHere : ¬ needle <+: c :: (word ++ sep :: rest) := fun here =>
      miss (prefix_before_separator (c :: word) absent here).isInfix
    have notLater : ¬ needle <:+: word := fun later => miss (later.trans (List.suffix_cons c word).isInfix)
    simp only [List.cons_append, strstr, notHere, if_false, ih notLater, Option.map_map,
      List.length_cons]
    congr 1

theorem strstr_hit {needle word : List α} (rest : List α) (hit : needle <:+: word) :
    ∃ offset, strstr (word ++ rest) needle = some offset ∧
      offset + needle.length ≤ word.length ∧ (offset = 0 ↔ needle <+: word) := by
  induction word with
  | nil =>
    have empty : needle = [] := List.infix_nil.mp hit
    subst empty
    cases rest <;> simp [strstr]
  | cons c word ih =>
    by_cases here : needle <+: c :: word
    · have found : needle <+: c :: (word ++ rest) := here.trans (List.prefix_append (c :: word) rest)
      exact ⟨0, by simp [strstr, found], by simpa using here.length_le, by simp [here]⟩
    · have later : needle <:+: word := (List.infix_cons_iff.mp hit).resolve_left here
      obtain ⟨offset, found, bound, _⟩ := ih later
      have notHere : ¬ needle <+: c :: (word ++ rest) := fun whole =>
        here (prefix_of_prefix_append (c :: word) whole (by simpa using by omega))
      exact ⟨offset + 1, by simp [strstr, notHere, found], by simpa using by omega, by simp [here]⟩

theorem strstr_nil {needle : List α} (nonempty : needle ≠ []) : strstr [] needle = none := by
  simp [strstr, nonempty]

theorem strchr_found (before : List α) {word : List α} {c : α} (absent : c ∉ word) (rest : List α) :
    strchr (before ++ (word ++ c :: rest)) before.length c = some (before.length + word.length) := by
  have position : (word ++ c :: rest).idxOf? c = some word.length := by
    induction word with
    | nil => simp [List.idxOf?_cons]
    | cons d word ih =>
      have different : d ≠ c := fun same => absent (by simp [same])
      have remaining : c ∉ word := fun later => absent (List.mem_cons_of_mem d later)
      simp [List.idxOf?_cons, different, ih remaining]
  simp [strchr, position]

theorem scanBack_found (before rest : List α) {word : List α} {c : α} (absent : c ∉ word)
    (offset : Nat) (inside : offset ≤ word.length) :
    scanBack (before ++ c :: (word ++ rest)) c (before.length + offset) = some before.length := by
  induction offset with
  | zero =>
    cases before with
    | nil => simp [scanBack]
    | cons b before => simp [scanBack]
  | succ offset ih =>
    have bound : offset < word.length := by omega
    have read : (before ++ c :: (word ++ rest))[before.length + offset + 1]? = some word[offset] := by
      rw [List.getElem?_append_right (by omega),
        show before.length + offset + 1 - before.length = offset + 1 by omega, List.getElem?_cons_succ,
        List.getElem?_append_left bound, List.getElem?_eq_getElem bound]
    have different : word[offset] ≠ c := fun same => absent (same ▸ List.getElem_mem bound)
    rw [← Nat.add_assoc, scanBack, read, if_neg (by simpa using different)]
    exact ih (by omega)

theorem strstr_occurs {text needle : List α} {position : Nat}
    (found : strstr text needle = some position) : needle <+: text.drop position := by
  induction text generalizing position with
  | nil =>
    by_cases empty : needle = []
    · simp [empty]
    · rw [strstr_nil empty] at found
      cases found
  | cons c text ih =>
    by_cases here : needle <+: c :: text
    · simp only [strstr, here, if_true, Option.some.injEq] at found
      exact found ▸ here
    · simp only [strstr, here, if_false, Option.map_eq_some_iff] at found
      obtain ⟨later, foundLater, rfl⟩ := found
      exact ih foundLater

theorem strchr_reads {text : List α} {start position : Nat} {c : α}
    (found : strchr text start c = some position) : start ≤ position ∧ text[position]? = some c := by
  obtain ⟨offset, foundOffset, rfl⟩ := Option.map_eq_some_iff.mp found
  obtain ⟨bound, read, _⟩ := List.idxOf?_eq_some_iff.mp foundOffset
  have here : (text.drop start)[offset]? = some c := List.getElem?_eq_some_iff.mpr ⟨bound, read⟩
  rw [List.getElem?_drop] at here
  exact ⟨Nat.le_add_right _ _, here⟩

theorem strchr_here {text : List α} {position : Nat} {c : α} (read : text[position]? = some c) :
    strchr text position c = some position := by
  obtain ⟨bound, same⟩ := List.getElem?_eq_some_iff.mp read
  simp [strchr, List.drop_eq_getElem_cons bound, same, List.idxOf?_cons]

theorem scanBack_reads {text : List α} {start position : Nat} {c : α}
    (found : scanBack text c start = some position) : position ≤ start ∧ text[position]? = some c := by
  induction start with
  | zero =>
    unfold scanBack at found
    split at found
    · rename_i read
      cases found
      exact ⟨Nat.le_refl _, read⟩
    · cases found
  | succ start ih =>
    unfold scanBack at found
    split at found
    · rename_i read
      cases found
      exact ⟨Nat.le_refl _, read⟩
    · obtain ⟨before, read⟩ := ih found
      exact ⟨Nat.le_succ_of_le before, read⟩

end Text
