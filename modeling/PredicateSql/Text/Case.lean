import PredicateSql.Text.CaseTable

/-!
# Upper and lower case

The full, language-independent case maps: one character may become several (`ß` becomes `SS`), and
the lower case of `Σ` depends on its neighbours.

* `toUpper`, `toLower`: a text in one case.
* `toLowerAscii`: the same for the letters `A` to `Z` only.
-/

namespace PredicateSql.Text

/-- The counterpart that a row gives to a code point. -/
def CaseRow.image? (row : CaseRow) (n : Nat) : Option Char :=
  if row.first ≤ n ∧ n ≤ row.last ∧ (n - row.first) % row.step = 0 then
    some (.ofNat (n + row.offset).toNat)
  else none

/-- The counterpart that a table gives to a character; the character itself if there is none. -/
def lookUpCase (rows : List CaseRow) (c : Char) : Char :=
  (rows.findSome? (·.image? c.toNat)).getD c

/-- A code point lies in one of the runs. -/
def inRanges (ranges : List (Nat × Nat)) (c : Char) : Bool :=
  ranges.any fun (first, last) => first ≤ c.toNat && c.toNat ≤ last

/-- The upper case of a character. -/
def upperChar (c : Char) : List Char :=
  match upperSequences.lookup c.toNat with
  | some sequence => sequence.map Char.ofNat
  | none => [lookUpCase upperRows c]

/-- A text in upper case. -/
def toUpper (text : List Char) : List Char :=
  text.flatMap upperChar

/-- The first character that counts has case. -/
def startsCased (text : List Char) : Bool :=
  match text.dropWhile (inRanges caseIgnorableRanges) with
  | [] => false
  | c :: _ => inRanges casedRanges c

/-- The lower case of a character: `İ` keeps its dot, and a sigma has another form at the end of a
word, with a letter before it and none after. The characters before it are in reverse order. -/
def lowerChar (before : List Char) (c : Char) (after : List Char) : List Char :=
  if c = 'Σ' then [if startsCased before && !startsCased after then 'ς' else 'σ']
  else if c = 'İ' then ['i', '\u0307']
  else [lookUpCase lowerRows c]

/-- A text in lower case, after the characters `before`, which are in reverse order. -/
def lowerFrom (before : List Char) : List Char → List Char
  | [] => []
  | c :: after => lowerChar before c after ++ lowerFrom (c :: before) after

/-- A text in lower case. -/
def toLower (text : List Char) : List Char :=
  lowerFrom [] text

/-- A text with the letters `A` to `Z` in lower case. -/
def toLowerAscii (text : String) : String :=
  .ofList (text.toList.map Char.toLower)

end PredicateSql.Text
