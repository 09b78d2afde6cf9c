import Mathlib.Data.List.Forall2
import Mathlib.Data.List.Infix
import PredicateSql.Text.Search
import PredicateSql.Text.Wildcard

/-!
# Matching of patterns with wildcards

What a pattern matches, and that the pattern for a text matches what the text is found in.

* `slots?`: what a pattern asks for, from the left. A pattern that ends within an escape
  (`EndsInEscape`) asks for nothing that could be told (`slots?_eq_none_iff`).
* `fits`: a text fits some slots if it is left empty by one of the ways to take them off its front.
  `fits_iff`: it does if it is made of runs, one for each slot.
* `likes`: a text matches a pattern.
* `likes_pattern`: the pattern for a text in some place matches the texts with this text in that
  place. Escaped, the text asks for nothing but its own characters (`slots?_pattern`), so only the
  wildcards around it leave a choice.
-/

namespace PredicateSql.Text

/-! ### Patterns -/

/-- What a pattern asks for at one place. -/
inductive Slot where
  | exactly (c : Char)
  | anyChar
  | anyText
  deriving Repr, DecidableEq

/-- What a character asks for that is not escaped. -/
def Slot.ofChar (c : Char) : Slot :=
  if c = '%' then .anyText else if c = '_' then .anyChar else .exactly c

/-- The slots of a pattern. A backslash is no slot, and one at the end has nothing to escape. -/
def slots? : List Char → Option (List Slot)
  | [] => some []
  | c :: rest =>
    if c = '\\' then
      match rest with
      | [] => none
      | escaped :: rest => (slots? rest).map (.exactly escaped :: ·)
    else (slots? rest).map (.ofChar c :: ·)

/-- The last character of the pattern is a backslash that is not escaped itself. -/
def EndsInEscape (pattern : List Char) : Prop :=
  ∃ complete, pattern = complete ++ ['\\'] ∧ slots? complete ≠ none

variable {c : Char} {text needle rest pattern : List Char} {slot : Slot} {slots slots' : List Slot}

theorem slots?_escaped : slots? ('\\' :: c :: rest) = (slots? rest).map (.exactly c :: ·) := by
  rw [slots?, if_pos rfl]

theorem slots?_cons (h : c ≠ '\\') :
    slots? (c :: rest) = (slots? rest).map (.ofChar c :: ·) := by
  rw [slots?.eq_def]
  exact if_neg h

theorem ofChar_of_not_isWildcard (h : isWildcard c = false) : Slot.ofChar c = .exactly c := by
  simp only [isWildcard, Bool.or_eq_false_iff, beq_eq_false_iff_ne] at h
  rw [Slot.ofChar, if_neg h.1.2, if_neg h.2]

/-- A backslash after a complete pattern has nothing to escape. -/
theorem slots?_append_escape (h : slots? pattern ≠ none) : slots? (pattern ++ ['\\']) = none := by
  fun_induction slots? pattern with
  | case1 => rfl
  | case2 => exact absurd rfl h
  | case3 escaped rest ih =>
    have hrest : slots? rest ≠ none := by simpa using h
    rw [List.cons_append, List.cons_append, slots?_escaped, ih hrest, Option.map_none]
  | case4 c rest hc ih =>
    have hrest : slots? rest ≠ none := by simpa using h
    rw [List.cons_append, slots?_cons hc, ih hrest, Option.map_none]

/-- Only a lone escape at the end leaves a pattern without slots. -/
theorem slots?_eq_none_iff : slots? pattern = none ↔ EndsInEscape pattern := by
  constructor
  · intro h
    fun_induction slots? pattern with
    | case1 => cases h
    | case2 => exact ⟨[], rfl, Option.some_ne_none _⟩
    | case3 escaped rest ih =>
      obtain ⟨complete, rfl, hcomplete⟩ := ih (Option.map_eq_none_iff.1 h)
      refine ⟨'\\' :: escaped :: complete, rfl, ?_⟩
      rw [slots?_escaped]
      exact mt Option.map_eq_none_iff.1 hcomplete
    | case4 c rest hc ih =>
      obtain ⟨complete, rfl, hcomplete⟩ := ih (Option.map_eq_none_iff.1 h)
      refine ⟨c :: complete, rfl, ?_⟩
      rw [slots?_cons hc]
      exact mt Option.map_eq_none_iff.1 hcomplete
  · rintro ⟨complete, rfl, hcomplete⟩
    exact slots?_append_escape hcomplete

/-! ### Texts that fit -/

/-- The texts that a slot stands for. -/
def Slot.Takes : Slot → List Char → Prop
  | .exactly c, run => run = [c]
  | .anyChar, run => ∃ c, run = [c]
  | .anyText, _ => True

/-- What may be left of a text when a slot is taken off its front. -/
def Slot.rests : Slot → List Char → List (List Char)
  | .anyText, text => text.tails
  | .exactly c, d :: rest => if c = d then [rest] else []
  | .anyChar, _ :: rest => [rest]
  | _, [] => []

/-- Nothing is left of the text when some slots are taken off its front, in one of the ways. -/
def fits : List Slot → List Char → Bool
  | [], text => text.isEmpty
  | slot :: slots, text => (slot.rests text).any (fits slots)

theorem Slot.mem_rests : rest ∈ slot.rests text ↔ ∃ run, slot.Takes run ∧ run ++ rest = text := by
  cases slot with
  | anyText => simp [rests, Takes, List.suffix_iff_exists_append_eq]
  | anyChar => cases text <;> simp [rests, Takes, eq_comm]
  | exactly c =>
    cases text with
    | nil => simp [rests, Takes]
    | cons d text =>
      by_cases hc : c = d
      · simp [rests, Takes, hc]
      · simp [rests, Takes, hc]

/-- A text fits some slots if it is made of texts that they stand for. -/
theorem fits_iff :
    fits slots text = true ↔ ∃ runs, List.Forall₂ Slot.Takes slots runs ∧ runs.flatten = text := by
  induction slots generalizing text with
  | nil =>
    rw [fits, List.isEmpty_iff]
    constructor
    · rintro rfl
      exact ⟨[], .nil, rfl⟩
    · rintro ⟨_, ⟨⟩, rfl⟩
      rfl
  | cons slot slots ih =>
    rw [fits, List.any_eq_true]
    constructor
    · rintro ⟨rest, hrest, hfits⟩
      obtain ⟨run, hrun, rfl⟩ := Slot.mem_rests.1 hrest
      obtain ⟨runs, hruns, rfl⟩ := ih.1 hfits
      exact ⟨run :: runs, .cons hrun hruns, rfl⟩
    · rintro ⟨_, hruns, rfl⟩
      obtain ⟨run, runs, hrun, hrest, rfl⟩ := List.forall₂_cons_left_iff.1 hruns
      exact ⟨runs.flatten, Slot.mem_rests.2 ⟨run, hrun, rfl⟩, ih.2 ⟨runs, hrest, rfl⟩⟩

theorem fits_append : fits (slots ++ slots') text = true ↔
    ∃ before after, fits slots before = true ∧ fits slots' after = true ∧
      before ++ after = text := by
  induction slots generalizing text with
  | nil => simp [fits]
  | cons slot slots ih =>
    rw [List.cons_append, fits, List.any_eq_true]
    constructor
    · rintro ⟨rest, hrest, hfits⟩
      obtain ⟨run, hrun, rfl⟩ := Slot.mem_rests.1 hrest
      obtain ⟨before, after, hbefore, hafter, rfl⟩ := ih.1 hfits
      refine ⟨run ++ before, after, ?_, hafter, List.append_assoc ..⟩
      rw [fits, List.any_eq_true]
      exact ⟨before, Slot.mem_rests.2 ⟨run, hrun, rfl⟩, hbefore⟩
    · rintro ⟨before, after, hbefore, hafter, rfl⟩
      rw [fits, List.any_eq_true] at hbefore
      obtain ⟨rest, hrest, hfits⟩ := hbefore
      obtain ⟨run, hrun, rfl⟩ := Slot.mem_rests.1 hrest
      have hrest : rest ++ after ∈ slot.rests (run ++ rest ++ after) :=
        Slot.mem_rests.2 ⟨run, hrun, (List.append_assoc ..).symm⟩
      exact ⟨rest ++ after, hrest, ih.2 ⟨rest, after, hfits, hafter, rfl⟩⟩

theorem fits_anyText : fits [.anyText] text = true := by
  rw [fits_iff]
  exact ⟨[text], .cons trivial .nil, List.append_nil text⟩

/-- The characters of a text leave no choice. -/
theorem fits_exactly : fits (needle.map .exactly) text = true ↔ needle = text := by
  induction needle generalizing text with
  | nil => rw [List.map_nil, fits, List.isEmpty_iff, eq_comm]
  | cons c needle ih =>
    rw [List.map_cons, fits, List.any_eq_true]
    constructor
    · rintro ⟨rest, hrest, hfits⟩
      obtain ⟨run, hrun, rfl⟩ := Slot.mem_rests.1 hrest
      obtain rfl := ih.1 hfits
      rw [show run = [c] from hrun]
      rfl
    · rintro rfl
      exact ⟨needle, Slot.mem_rests.2 ⟨[c], rfl, rfl⟩, ih.2 rfl⟩

/-! ### Patterns for texts -/

/-- A text matches a pattern. No text matches a pattern that ends within an escape. -/
def likes (pattern text : List Char) : Bool :=
  match slots? pattern with
  | some slots => fits slots text
  | none => false

/-- A text stands in a place within another. -/
def Anchor.finds (anchor : Anchor) (needle text : List Char) : Bool :=
  match anchor with
  | .anywhere => occursIn needle text
  | .start => needle.isPrefixOf text
  | .ending => needle.isSuffixOf text

/-- Escaped, a text asks for its own characters, whatever follows it in the pattern. -/
theorem slots?_escapeWildcards_append :
    slots? (escapeWildcards text ++ rest) = (slots? rest).map (text.map .exactly ++ ·) := by
  induction text with
  | nil => simp [escapeWildcards]
  | cons c text ih =>
    rw [escapeWildcards]
    split
    · rw [List.cons_append, List.cons_append, slots?_escaped, ih, Option.map_map]
      rfl
    · next hc =>
      have hplain : isWildcard c = false := Bool.eq_false_iff.2 hc
      have hne : c ≠ '\\' := by
        rintro rfl
        cases hplain
      rw [List.cons_append, slots?_cons hne, ofChar_of_not_isWildcard hplain, ih, Option.map_map]
      rfl

theorem slots?_pattern (anchor : Anchor) (text : List Char) :
    slots? (anchor.pattern text) = some (anchor.surround [.anyText] (text.map .exactly)) := by
  have hend : slots? ['%'] = some [.anyText] := rfl
  have hstart : ∀ rest, slots? ('%' :: rest) = (slots? rest).map (.anyText :: ·) :=
    fun _ => slots?_cons (by decide)
  cases anchor with
  | anywhere =>
    show slots? ('%' :: (escapeWildcards text ++ ['%'])) = _
    rw [hstart, slots?_escapeWildcards_append, hend]
    rfl
  | start =>
    show slots? (escapeWildcards text ++ ['%']) = _
    rw [slots?_escapeWildcards_append, hend]
    rfl
  | ending =>
    show slots? ('%' :: escapeWildcards text) = _
    rw [hstart, ← List.append_nil (escapeWildcards text), slots?_escapeWildcards_append]
    simp [slots?, Anchor.surround]

theorem not_endsInEscape_pattern (anchor : Anchor) (text : List Char) :
    ¬ EndsInEscape (anchor.pattern text) := by
  rw [← slots?_eq_none_iff, slots?_pattern]
  exact Option.some_ne_none _

/-- The pattern for a text in some place matches the texts with this text in that place. -/
theorem likes_pattern (anchor : Anchor) (needle text : List Char) :
    likes (anchor.pattern needle) text = anchor.finds needle text := by
  rw [likes, slots?_pattern, Bool.eq_iff_iff]
  -- The wildcards stand for what comes before the needle, and for what comes after it.
  cases anchor with
  | anywhere =>
    show fits ([.anyText] ++ needle.map .exactly ++ [.anyText]) text = true ↔ _
    rw [Anchor.finds, occursIn_iff_infix, fits_append]
    constructor
    · rintro ⟨start, after, hstart, -, rfl⟩
      obtain ⟨before, middle, -, hmiddle, rfl⟩ := fits_append.1 hstart
      exact ⟨before, after, by rw [fits_exactly.1 hmiddle]⟩
    · rintro ⟨before, after, rfl⟩
      refine ⟨before ++ needle, after, ?_, fits_anyText, rfl⟩
      exact fits_append.2 ⟨before, needle, fits_anyText, fits_exactly.2 rfl, rfl⟩
  | start =>
    show fits (needle.map .exactly ++ [.anyText]) text = true ↔ _
    rw [Anchor.finds, List.isPrefixOf_iff_prefix, fits_append]
    constructor
    · rintro ⟨start, after, hstart, -, rfl⟩
      exact ⟨after, by rw [fits_exactly.1 hstart]⟩
    · rintro ⟨after, rfl⟩
      exact ⟨needle, after, fits_exactly.2 rfl, fits_anyText, rfl⟩
  | ending =>
    show fits ([.anyText] ++ needle.map .exactly) text = true ↔ _
    rw [Anchor.finds, List.isSuffixOf_iff_suffix, fits_append]
    constructor
    · rintro ⟨before, ending, -, hending, rfl⟩
      exact ⟨before, by rw [fits_exactly.1 hending]⟩
    · rintro ⟨before, rfl⟩
      exact ⟨before, needle, fits_anyText, fits_exactly.2 rfl, rfl⟩

example : likes (Anchor.ending.pattern "a_".toList) "ba_".toList = true ∧
    likes (Anchor.ending.pattern "a_".toList) "bab".toList = false := by
  decide

end PredicateSql.Text
