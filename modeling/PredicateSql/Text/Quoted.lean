/-!
# Quoted text

Within quotes, a quote is written twice.

* `doubled`: a text with each quote doubled.
* `undoubled`: a text with each pair of quotes made one again.
* `quoted`: a doubled text between two quotes.
* `undoubled_doubled`: what is doubled can be read back.
* `quoted_of_not_mem`: a text without quotes stands between them as it is.
-/

namespace PredicateSql.Text

/-- A text with each `quote` in it doubled. -/
def doubled (quote : Char) : List Char → List Char
  | [] => []
  | c :: rest => if c = quote then c :: c :: doubled quote rest else c :: doubled quote rest

/-- A text with each pair of quotes in it, taken from the left, made a single one. -/
def undoubled (quote : Char) : List Char → List Char
  | [] => []
  | [c] => [c]
  | c :: d :: rest =>
    if c = quote ∧ d = quote then c :: undoubled quote rest else c :: undoubled quote (d :: rest)

/-- What is doubled can be read back. -/
theorem undoubled_doubled (quote : Char) (text : List Char) :
    undoubled quote (doubled quote text) = text := by
  induction text with
  | nil => rfl
  | cons c rest ih =>
    by_cases h : c = quote
    · rw [doubled, if_pos h, undoubled, if_pos ⟨h, h⟩, ih]
    · rw [doubled, if_neg h]
      cases hd : doubled quote rest with
      | nil => rw [undoubled, ← ih, hd, undoubled]
      | cons d more => rw [undoubled, if_neg fun hc => h hc.1, ← hd, ih]

theorem doubled_of_not_mem {quote : Char} {text : List Char} (h : quote ∉ text) :
    doubled quote text = text := by
  induction text with
  | nil => rfl
  | cons c rest ih =>
    rw [List.mem_cons, not_or] at h
    rw [doubled, if_neg (Ne.symm h.1), ih h.2]

/-- A text between quotes. -/
def quoted (quote : Char) (text : String) : String :=
  .ofList (quote :: doubled quote text.toList ++ [quote])

theorem quoted_of_not_mem {quote : Char} {text : String} (h : quote ∉ text.toList) :
    (quoted quote text).toList = quote :: text.toList ++ [quote] := by
  rw [quoted, String.toList_ofList, doubled_of_not_mem h]

end PredicateSql.Text
