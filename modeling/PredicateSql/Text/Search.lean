/-!
# Texts within texts

* `occursIn`: one text stands somewhere within another.
* `stripStart?`, `stripEnd?`: what is left of a text without a given start or end.
* `splitOnce?`: a text before and after the first place where a character stands.
* `occursIn_iff_infix`: a text occurs within another exactly if it is a part of it without gaps.
* `stripStart?_eq_some_iff`, `stripEnd?_eq_some_iff`: what is stripped, put back, gives the text.
-/

namespace PredicateSql.Text

/-- `needle` stands somewhere within the text. -/
def occursIn (needle : List Char) : List Char → Bool
  | [] => needle.isEmpty
  | c :: rest => needle.isPrefixOf (c :: rest) || occursIn needle rest

/-- A text occurs within another exactly if it is a part of it without gaps. -/
theorem occursIn_iff_infix {needle text : List Char} :
    occursIn needle text = true ↔ needle <:+: text := by
  induction text with
  | nil => rw [occursIn, List.isEmpty_iff, List.infix_nil]
  | cons c rest ih =>
    rw [occursIn, Bool.or_eq_true, List.isPrefixOf_iff_prefix, ih, List.infix_cons_iff]

/-- What follows `start` in a text that begins with it. -/
def stripStart? : List Char → List Char → Option (List Char)
  | [], text => some text
  | _ :: _, [] => none
  | s :: start, c :: text => if s = c then stripStart? start text else none

/-- What comes before `ending` in a text that ends with it. -/
def stripEnd? (ending text : List Char) : Option (List Char) :=
  (stripStart? ending.reverse text.reverse).map List.reverse

/-- The text before and after the first `c`. -/
def splitOnce? (c : Char) : List Char → Option (List Char × List Char)
  | [] => none
  | d :: rest =>
    if d = c then some ([], rest)
    else (splitOnce? c rest).map fun (before, after) => (d :: before, after)

/-! ### What is stripped and what is left -/

/-- What is stripped off the start, put back, gives the text. -/
theorem stripStart?_eq_some_iff {start text rest : List Char} :
    stripStart? start text = some rest ↔ text = start ++ rest := by
  induction start generalizing text with
  | nil => simp [stripStart?]
  | cons s start ih =>
    cases text with
    | nil => simp [stripStart?]
    | cons c text =>
      by_cases h : s = c
      · simp [stripStart?, h, ih]
      · simp [stripStart?, h, Ne.symm h]

/-- What is stripped off the end, put back, gives the text. -/
theorem stripEnd?_eq_some_iff {ending text rest : List Char} :
    stripEnd? ending text = some rest ↔ text = rest ++ ending := by
  rw [stripEnd?, Option.map_eq_some_iff]
  constructor
  · rintro ⟨tser, h, rfl⟩
    have := congrArg List.reverse (stripStart?_eq_some_iff.1 h)
    simpa using this
  · rintro rfl
    exact ⟨rest.reverse, stripStart?_eq_some_iff.2 (by simp), by simp⟩

/-- The two parts, put together around the character, give the text. -/
theorem splitOnce?_eq_some {c : Char} {text before after : List Char}
    (h : splitOnce? c text = some (before, after)) : text = before ++ c :: after := by
  induction text generalizing before with
  | nil => simp [splitOnce?] at h
  | cons d rest ih =>
    by_cases hd : d = c
    · simp only [splitOnce?, hd, if_true, Option.some.injEq, Prod.mk.injEq] at h
      simp [hd, ← h.1, ← h.2]
    · simp only [splitOnce?, hd, if_false, Option.map_eq_some_iff, Prod.mk.injEq] at h
      obtain ⟨⟨b, a⟩, h, rfl, rfl⟩ := h
      simp [ih h]

end PredicateSql.Text
