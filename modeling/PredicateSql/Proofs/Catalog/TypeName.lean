import Mathlib.Data.List.DropRight
import PredicateSql.ValueType

/-!
# The names of types

Every text is the name of a type, and one type has many names. The name that a type is printed
under is one of them.

* `Text.trim_trim`, `Text.trim_eq_self`: what is trimmed, and what has no blanks at its ends, stays
  as it is when it is trimmed.
* `ValueType.IsNamed`: the models in a type have names that stand for them.
* `ValueType.isNamed_parseChars`: so do the models in every type that has a name, by induction on
  the markers of the name.
* `ValueType.parse_render`: such a type is read again from the name that it is printed under, by
  induction on the type.
-/

namespace PredicateSql

/-! ### Trimmed texts -/

namespace Text

variable {text : List Char} {c : Char}

/-- A text that starts and ends with other characters than blanks has nothing to be trimmed. -/
theorem trim_eq_self (hfirst : ∀ c ∈ text.head?, isBlank c = false)
    (hlast : ∀ c ∈ text.getLast?, isBlank c = false) : trim text = text := by
  have hdrop : ∀ chars : List Char, (∀ c ∈ chars.head?, isBlank c = false) →
      chars.dropWhile isBlank = chars := by
    intro chars hchars
    cases chars with
    | nil => rfl
    | cons c rest => rw [List.dropWhile_cons_of_neg (by simp [hchars c rfl])]
  rw [trim, dropEndWhile, hdrop text hfirst, hdrop _ (by simpa using hlast), List.reverse_reverse]

theorem isBlank_of_head?_dropWhile (h : c ∈ (text.dropWhile isBlank).head?) :
    isBlank c = false := by
  have hnot := List.head?_dropWhile_not isBlank text
  rw [Option.mem_def.1 h] at hnot
  exact hnot

/-- No blank is left at the start of a trimmed text. -/
theorem isBlank_of_head?_trim (h : c ∈ (trim text).head?) : isBlank c = false := by
  -- What is dropped at the end leaves a start of the text.
  obtain ⟨dropped, hdropped⟩ : trim text <+: text.dropWhile isBlank :=
    List.rdropWhile_prefix isBlank _
  have hhead : c ∈ (text.dropWhile isBlank).head? := by
    rw [← hdropped, List.head?_append, Option.mem_def.1 h]
    rfl
  exact isBlank_of_head?_dropWhile hhead

/-- No blank is left at the end of a trimmed text. -/
theorem isBlank_of_getLast?_trim (h : c ∈ (trim text).getLast?) : isBlank c = false := by
  rw [trim, dropEndWhile, List.getLast?_reverse] at h
  exact isBlank_of_head?_dropWhile h

/-- What is trimmed stays as it is. -/
theorem trim_trim (text : List Char) : trim (trim text) = trim text :=
  trim_eq_self (fun _ => isBlank_of_head?_trim) fun _ => isBlank_of_getLast?_trim

end Text

namespace ValueType

/-! ### Named types -/

/-- A name without blanks around it and without a marker that stands for a model. -/
structure IsModelName (name : String) : Prop where
  trimmed : Text.trim name.toList = name.toList
  word : Shape.of name.toList = .word
  model : ofWord name = .model name

/-- The models in a type have names that stand for them. -/
def IsNamed : ValueType → Prop
  | .list element => element.IsNamed
  | .model name => IsModelName name
  | _ => True

/-- A word that stands for a model is the name of the model. -/
theorem eq_of_ofWord {name model : String} (h : ofWord name = .model model) : model = name := by
  unfold ofWord at h
  split at h <;> cases h
  rfl

theorem isNamed_ofWord {text : List Char} (hword : Shape.of (Text.trim text) = .word) :
    (ofWord (.ofList (Text.trim text))).IsNamed := by
  cases htype : ofWord (.ofList (Text.trim text)) with
  | model name =>
    obtain rfl := eq_of_ofWord htype
    refine ⟨?_, ?_, htype⟩
    · rw [String.toList_ofList, Text.trim_trim]
    · rw [String.toList_ofList, hword]
  | list element =>
    unfold ofWord at htype
    split at htype <;> cases htype
  | _ => trivial

/-- The type that a name stands for is named: all that is no marker and no word with a meaning of
its own is the name of a model. -/
theorem isNamed_parseChars (text : List Char) : (parseChars text).1.IsNamed := by
  fun_induction parseChars text with
  | case1 text inner hshape ih => exact ih
  | case2 => trivial
  | case3 text inner hshape element hbytes ih => exact ih
  | case4 text inner hshape ih => exact ih
  | case5 text hshape => exact isNamed_ofWord hshape

/-! ### Printed names -/

theorem parseChars_of_word {text : List Char} (h : Shape.of (Text.trim text) = .word) :
    parseChars text = (ofWord (.ofList (Text.trim text)), false) := by
  rw [parseChars]
  split <;> simp_all

theorem parseChars_of_array {text inner : List Char}
    (h : Shape.of (Text.trim text) = .array inner) :
    parseChars text =
      if (parseChars inner).1 = .int ∧ "byte".toList.isPrefixOf (Text.trim text) then (.bytes, false)
      else (.list (parseChars inner).1, false) := by
  rw [parseChars]
  split <;> simp_all

/-- A name with brackets after it is marked as an array, whatever stands before the brackets. -/
theorem shape_append_brackets (inner : List Char) :
    Shape.of (inner ++ ['[', ']']) = .array inner := by
  have hlast : (inner ++ ['[', ']']).getLast? = some ']' := by simp
  have hnullable : Text.stripEnd? ['?'] (inner ++ ['[', ']']) = none := by
    rw [Option.eq_none_iff_forall_ne_some]
    intro rest hrest
    rw [Text.stripEnd?_eq_some_iff.1 hrest] at hlast
    simp at hlast
  have hgeneric : (Text.stripStart? "Nullable<".toList (inner ++ ['[', ']'])).bind
      (Text.stripEnd? ['>']) = none := by
    rw [Option.eq_none_iff_forall_ne_some]
    intro rest hrest
    obtain ⟨after, hstart, hend⟩ := Option.bind_eq_some_iff.1 hrest
    rw [Text.stripStart?_eq_some_iff.1 hstart, Text.stripEnd?_eq_some_iff.1 hend,
      ← List.append_assoc, List.getLast?_concat] at hlast
    simp at hlast
  rw [Shape.of, hnullable, hgeneric, Text.stripEnd?_eq_some_iff.2 rfl]

/-- The printed name of a named type starts with a character that is no blank. -/
theorem IsNamed.exists_head {type : ValueType} (h : type.IsNamed) :
    ∃ c, type.render.toList.head? = some c ∧ Text.isBlank c = false := by
  induction type with
  | list element ih =>
    obtain ⟨c, hc, hblank⟩ := ih h
    refine ⟨c, ?_, hblank⟩
    rw [render, String.toList_append, List.head?_append, hc]
    rfl
  | model name =>
    rw [render]
    cases hhead : name.toList.head? with
    | none =>
      -- The empty name stands for no model.
      have hempty : name = "" := by simpa using hhead
      have hmodel := h.model
      rw [hempty] at hmodel
      cases hmodel
    | some c =>
      rw [← h.trimmed] at hhead
      exact ⟨c, rfl, Text.isBlank_of_head?_trim hhead⟩
  | _ => exact ⟨_, rfl, by decide⟩

/-- A named type is read again from the name that it is printed under. -/
theorem IsNamed.parse_render {type : ValueType} (h : type.IsNamed) :
    parse type.render = (type, false) := by
  induction type with
  | list element ih =>
    obtain ⟨c, hc, hblank⟩ := IsNamed.exists_head h
    have helement : parseChars element.render.toList = (element, false) := ih h
    have hname : (ValueType.list element).render.toList = element.render.toList ++ ['[', ']'] := by
      rw [render, String.toList_append]
      rfl
    have htrim : Text.trim (element.render.toList ++ ['[', ']']) =
        element.render.toList ++ ['[', ']'] := by
      refine Text.trim_eq_self (fun d hd => ?_) fun d hd => ?_
      · rw [← hname, hc] at hd
        obtain rfl := Option.some.inj hd
        exact hblank
      · obtain rfl : ']' = d := by simpa using hd
        decide
    -- Numbers are printed under another name than that of bytes.
    have hbytes : ¬ (element = .int ∧ "byte".toList.isPrefixOf
        (element.render.toList ++ ['[', ']']) = true) := by
      rintro ⟨rfl, hbyte⟩
      revert hbyte
      decide
    rw [parse, hname, parseChars_of_array (by rw [htrim, shape_append_brackets]), htrim, helement,
      if_neg hbytes]
  | model name =>
    have hword : Shape.of (Text.trim name.toList) = .word := by rw [h.trimmed, h.word]
    rw [parse, render, parseChars_of_word hword, h.trimmed, String.ofList_toList, h.model]
  | _ => decide +kernel

end ValueType

end PredicateSql
