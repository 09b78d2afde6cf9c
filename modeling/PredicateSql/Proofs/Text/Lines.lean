import Mathlib.Logic.Basic
import PredicateSql.Proofs.Text.Numerals
import PredicateSql.Text.Hex
import PredicateSql.Text.Quoted

/-!
# Lines

* `linesOf`: the lines of a text, as a reader sees them.
* `linesOf_ended`: texts that are written one after the other, each with a line break after it, are
  its lines if none of them has a break within it. `length_linesOf_ended`: every break within one of
  them makes a line more.
* `HasBreak`, `HaveBreak`: a text, or one of several texts, has a line break in it. What is put
  together from texts has one if and only if a part of it has.
-/

namespace PredicateSql.Text

/-! ### Reading lines -/

/-- The lines of a text. The last one may stand without a line break after it. -/
def linesOf : List Char → List (List Char)
  | [] => []
  | c :: rest =>
    if c = '\n' then [] :: linesOf rest
    else
      match linesOf rest with
      | [] => [[c]]
      | line :: more => (c :: line) :: more

example : linesOf "a\n\nb".toList = ["a".toList, [], "b".toList] := by decide

/-- A text with a line break after it. -/
def ended (text : List Char) : List Char :=
  text ++ ['\n']

theorem linesOf_append_break {line : List Char} (h : '\n' ∉ line) (rest : List Char) :
    linesOf (line ++ '\n' :: rest) = line :: linesOf rest := by
  induction line with
  | nil => rfl
  | cons c line ih =>
    have hc : c ≠ '\n' := fun heq => h (heq ▸ List.mem_cons_self)
    have hline : '\n' ∉ line := fun hmem => h (List.mem_cons_of_mem c hmem)
    rw [List.cons_append, linesOf, if_neg hc, ih hline]

/-- Texts without a line break in them are read as they were written. -/
theorem linesOf_ended {texts : List (List Char)} (h : ∀ text ∈ texts, '\n' ∉ text) :
    linesOf (texts.flatMap ended) = texts := by
  induction texts with
  | nil => rfl
  | cons text texts ih =>
    obtain ⟨htext, htexts⟩ := List.forall_mem_cons.1 h
    rw [List.flatMap_cons, ended, List.append_assoc, List.singleton_append,
      linesOf_append_break htext, ih htexts]

/-- Every line break ends one line. -/
theorem length_linesOf_append (text rest : List Char) :
    (linesOf (text ++ '\n' :: rest)).length = text.count '\n' + 1 + (linesOf rest).length := by
  induction text with
  | nil =>
    rw [List.nil_append, linesOf, if_pos rfl, List.length_cons, List.count_nil]
    omega
  | cons c text ih =>
    rw [List.cons_append, linesOf]
    by_cases hc : c = '\n'
    · rw [if_pos hc, List.length_cons, ih, hc, List.count_cons_self]
      omega
    · rw [if_neg hc, List.count_cons_of_ne (by simpa using hc), ← ih]
      cases hlines : linesOf (text ++ '\n' :: rest) with
      | nil =>
        rw [hlines, List.length_nil] at ih
        omega
      | cons line more => rfl

/-- There are as many lines as texts, and one more for every line break within a text. -/
theorem length_linesOf_ended (texts : List (List Char)) :
    (linesOf (texts.flatMap ended)).length =
      texts.length + texts.flatten.count '\n' := by
  induction texts with
  | nil => rfl
  | cons text texts ih =>
    rw [List.flatMap_cons, ended, List.append_assoc, List.singleton_append,
      length_linesOf_append, ih, List.flatten_cons, List.count_append, List.length_cons]
    omega

/-- A line break within a text makes more lines than there are texts. -/
theorem length_lt_linesOf {texts : List (List Char)} {text : List Char} (h : text ∈ texts)
    (hbreak : '\n' ∈ text) : texts.length < (linesOf (texts.flatMap ended)).length := by
  have hcount : 0 < texts.flatten.count '\n' :=
    List.count_pos_iff.2 (List.mem_flatten.2 ⟨text, h, hbreak⟩)
  rw [length_linesOf_ended]
  omega

/-! ### Texts with line breaks in them -/

/-- The text has a line break in it. -/
def HasBreak (text : String) : Prop :=
  '\n' ∈ text.toList

instance (text : String) : Decidable (HasBreak text) :=
  inferInstanceAs (Decidable (_ ∈ _))

/-- One of the texts has a line break in it. -/
def HaveBreak (texts : List String) : Prop :=
  ∃ text ∈ texts, HasBreak text

variable {a b : String} {xs ys : List String}

@[simp]
theorem hasBreak_append : HasBreak (a ++ b) ↔ HasBreak a ∨ HasBreak b := by
  rw [HasBreak, String.toList_append, List.mem_append]
  rfl

@[simp]
theorem haveBreak_nil : ¬ HaveBreak [] := by
  rintro ⟨_, hmem, -⟩
  cases hmem

@[simp]
theorem haveBreak_cons : HaveBreak (a :: xs) ↔ HasBreak a ∨ HaveBreak xs := by
  simp only [HaveBreak, List.mem_cons, or_and_right, exists_or, exists_eq_left]

@[simp]
theorem haveBreak_append : HaveBreak (xs ++ ys) ↔ HaveBreak xs ∨ HaveBreak ys := by
  simp only [HaveBreak, List.mem_append, or_and_right, exists_or]

theorem haveBreak_flatMap {α : Type} {items : List α} {f : α → List String} :
    HaveBreak (items.flatMap f) ↔ ∃ item ∈ items, HaveBreak (f item) := by
  simp only [HaveBreak, List.mem_flatMap]
  constructor
  · rintro ⟨text, ⟨item, hitem, htext⟩, hbreak⟩
    exact ⟨item, hitem, text, htext, hbreak⟩
  · rintro ⟨item, hitem, text, htext, hbreak⟩
    exact ⟨text, ⟨item, hitem, htext⟩, hbreak⟩

theorem haveBreak_map {α : Type} {items : List α} {f : α → String} :
    HaveBreak (items.map f) ↔ ∃ item ∈ items, HasBreak (f item) := by
  simp only [HaveBreak, List.mem_map, exists_exists_and_eq_and]

theorem hasBreak_join : HasBreak (String.join xs) ↔ HaveBreak xs := by
  rw [HasBreak, String.toList_join, List.mem_flatMap]
  rfl

theorem hasBreak_intercalate {separator : String} (h : ¬ HasBreak separator) :
    HasBreak (separator.intercalate xs) ↔ HaveBreak xs := by
  induction xs with
  | nil => simp [HasBreak]
  | cons x xs ih =>
    cases xs with
    | nil => simp
    | cons y ys =>
      rw [String.intercalate_cons_cons, hasBreak_append, hasBreak_append, ih, haveBreak_cons]
      simp [h]

/-! ### Parts that are written in a form of their own -/

theorem mem_doubled {quote c : Char} {text : List Char} :
    c ∈ doubled quote text ↔ c ∈ text := by
  induction text with
  | nil => rfl
  | cons d text ih =>
    rw [doubled]
    split <;> simp [ih]

theorem hasBreak_quoted {quote : Char} (hquote : quote ≠ '\n') (text : String) :
    HasBreak (quoted quote text) ↔ HasBreak text := by
  simp [HasBreak, quoted, mem_doubled, hquote.symm]

theorem not_hasBreak_of_numerals (h : Numerals a.toList) : ¬ HasBreak a :=
  fun hbreak => by cases h _ hbreak

@[simp]
theorem not_hasBreak_nat (n : Nat) : ¬ HasBreak n.repr :=
  not_hasBreak_of_numerals (numerals_nat n)

@[simp]
theorem not_hasBreak_int (i : Int) : ¬ HasBreak i.repr :=
  not_hasBreak_of_numerals (numerals_int i)

@[simp]
theorem not_hasBreak_date (d : Date) : ¬ HasBreak d.render :=
  not_hasBreak_of_numerals d.numerals_render

@[simp]
theorem not_hasBreak_dateTime (t : DateTime) : ¬ HasBreak t.render :=
  not_hasBreak_of_numerals t.numerals_render

@[simp]
theorem not_hasBreak_float (x : Float) : ¬ HasBreak (Binary64.render x) := by
  rcases Binary64.render_cases x with h | h | h | h
  · rw [HasBreak, h]
    decide
  · rw [HasBreak, h]
    decide
  · rw [HasBreak, h]
    decide
  · exact not_hasBreak_of_numerals h

theorem hexDigit_ne_break {ten : Char} (hten : ten = 'a' ∨ ten = 'A') :
    ∀ n < 16, '\n' ≠ hexDigit ten n := by
  rcases hten with rfl | rfl <;> decide

theorem not_hasBreak_hexOfBytes {ten : Char} (hten : ten = 'a' ∨ ten = 'A') (bytes : List UInt8) :
    ¬ HasBreak (hexOfBytes ten bytes) := by
  intro hbreak
  obtain ⟨n, hn, hdigit⟩ := exists_of_mem_hexOfBytes hbreak
  exact hexDigit_ne_break hten n hn hdigit

end PredicateSql.Text
