import PredicateSql.Proofs.Sql.Quotation
import PredicateSql.Proofs.Text.Words

/-!
# Keywords and names

Which words of a statement a reader takes for keywords. The case of letters does not matter to it,
and what stands between quotes is no keyword.

* `keywords`: the keywords that statements are written with. `unguarded`: those of them that a name
  may be without being quoted.
* `Printer.keyword?_identifier_iff`: a name that is written without quotes can be a keyword, of those
  that are unguarded.
* `Word`, `Printer.termWords`, `Printer.queryWords`: the keywords and names that terms and
  statements are written with, in their order.
* `Printer.readAs`: the keywords that a reader finds in such a word.
  `Dialect.finds_literal`, `Printer.finds_identifier` and so on: it finds them in the text.
-/

namespace PredicateSql.Sql

open Text (EndsApart Finds Numerals Separates StartsApart isWordChar)

/-! ### Keywords -/

/-- The keywords that statements are written with. -/
def keywords : List String :=
  ["SELECT", "FROM", "AS", "LEFT", "JOIN", "ON", "WHERE", "ORDER", "BY", "ASC", "DESC", "LIMIT",
    "OFFSET", "AND", "OR", "NOT", "NULL", "IS", "IN", "LIKE", "ESCAPE", "CASE", "WHEN", "THEN",
    "ELSE", "END", "TRUE", "FALSE"]

/-- The keyword that a word is, in any case of its letters. -/
def keyword? (word : List Char) : Option String :=
  keywords.find? fun k => k.toList.map Char.toLower == word.map Char.toLower

/-- The keywords of a text, but for those between quotes. -/
def keywordsIn (text : String) : List String :=
  (Text.words (Text.outside none text.toList)).filterMap keyword?

example : keywordsIn "(t0.\"as\" IS null)" = ["IS", "NULL"] := by decide

/-- The keywords that are no reserved names. -/
def unguarded : List String :=
  keywords.filter fun k => !reservedNames.contains (Text.toLowerAscii k)

example : unguarded = ["LEFT", "JOIN", "ON", "ASC", "DESC", "OFFSET", "IS", "IN", "LIKE", "ESCAPE",
    "WHEN", "THEN", "ELSE", "END", "TRUE", "FALSE"] := by
  decide

/-! ### Names -/

/-- Only capitals have another form in lower case. -/
theorem toLower_of_not_upper {c : Char} (h : ¬ (c.val ≥ 65 ∧ c.val ≤ 90)) : c.toLower = c :=
  dif_neg h

theorem toLower_of_isLower {c : Char} (h : c.isLower = true) : c.toLower = c := by
  have hbounds : (decide (c.val ≥ 97) && decide (c.val ≤ 122)) = true := h
  rw [Bool.and_eq_true, decide_eq_true_iff, decide_eq_true_iff] at hbounds
  exact toLower_of_not_upper fun hupper => by grind

theorem toLower_of_isDigit {c : Char} (h : c.isDigit = true) : c.toLower = c := by
  have hbounds : (decide (c.val ≥ 48) && decide (c.val ≤ 57)) = true := h
  rw [Bool.and_eq_true, decide_eq_true_iff, decide_eq_true_iff] at hbounds
  exact toLower_of_not_upper fun hupper => by grind

/-- The characters of plain names are those of words, and they are in lower case. -/
theorem isWordChar_and_toLower {c : Char} (h : (isPlainStart c || c.isDigit) = true) :
    isWordChar c = true ∧ c.toLower = c := by
  have hword : isWordChar c = (c.isUpper || c.isLower || c.isDigit || c == '_') := rfl
  rcases Bool.or_eq_true_iff.1 h with hstart | hdigit
  · rcases Bool.or_eq_true_iff.1 hstart with hlower | hunderscore
    · exact ⟨by simp [hword, hlower], toLower_of_isLower hlower⟩
    · rw [beq_iff_eq.1 hunderscore]
      decide
  · exact ⟨by simp [hword, hdigit], toLower_of_isDigit hdigit⟩

theorem forall_mem_of_isPlain {name : List Char} (h : isPlain name = true) :
    name ≠ [] ∧ ∀ c ∈ name, isWordChar c = true ∧ c.toLower = c := by
  cases name with
  | nil => cases h
  | cons c rest =>
    rw [isPlain, Bool.and_eq_true, List.all_eq_true] at h
    have hstart : (isPlainStart c || c.isDigit) = true := by rw [h.1, Bool.true_or]
    refine ⟨List.cons_ne_nil c rest, List.forall_mem_cons.2 ⟨isWordChar_and_toLower hstart, ?_⟩⟩
    exact fun d hd => isWordChar_and_toLower (h.2 d hd)

/-- Only an unguarded keyword can be a plain name that is not reserved. -/
theorem keyword?_of_isPlain {name : String} (hplain : isPlain name.toList = true)
    (hreserved : name ∉ reservedNames) :
    keyword? name.toList = unguarded.find? fun k => Text.toLowerAscii k == name := by
  have hlower : name.toList.map Char.toLower = name.toList :=
    (List.map_congr_left fun c hc => ((forall_mem_of_isPlain hplain).2 c hc).2).trans
      (List.map_id name.toList)
  rw [keyword?, unguarded, List.find?_filter]
  congr 1
  funext k
  rw [hlower, Bool.eq_iff_iff, beq_iff_eq, decide_eq_true_iff, beq_iff_eq, Text.toLowerAscii,
    ← String.toList_inj, String.toList_ofList]
  refine ⟨fun heq => ⟨?_, heq⟩, And.right⟩
  rw [heq, String.ofList_toList]
  simpa using hreserved

/-- A text is longer between quotes. -/
theorem quoted_ne (quote : Char) (s : String) : Text.quoted quote s ≠ s := by
  have hdoubled : ∀ text : List Char, text.length ≤ (Text.doubled quote text).length := by
    intro text
    induction text with
    | nil => exact Nat.le_refl 0
    | cons c rest ih =>
      rw [Text.doubled]
      split <;> simp only [List.length_cons] <;> omega
  intro heq
  have hlength := congrArg (fun t : String => t.toList.length) heq
  have hle := hdoubled s.toList
  simp only [Text.quoted, String.toList_ofList, List.length_append, List.length_cons,
    List.length_nil] at hlength
  omega

/-- A name that is written as it is can be a keyword: an unguarded one. -/
theorem Printer.keyword?_identifier_iff (p : Printer) {name k : String} :
    p.identifier name = name ∧ keyword? name.toList = some k ↔
      p.quoteIdentifiers = false ∧ k ∈ unguarded ∧ name = Text.toLowerAscii k := by
  have hunguarded : ∀ k ∈ unguarded, isPlain (Text.toLowerAscii k).toList = true ∧
      Text.toLowerAscii k ∉ reservedNames ∧
      unguarded.find? (fun k' => Text.toLowerAscii k' == Text.toLowerAscii k) = some k := by
    decide
  constructor
  · rintro ⟨hname, hkeyword⟩
    rcases p.identifier_cases name with hquoted | ⟨-, hquote, hplain, hreserved⟩
    · exact absurd (hquoted.symm.trans hname) (quoted_ne _ _)
    · rw [keyword?_of_isPlain hplain hreserved] at hkeyword
      have heq := List.find?_some hkeyword
      exact ⟨hquote, List.mem_of_find?_eq_some hkeyword, (beq_iff_eq.1 heq).symm⟩
  · rintro ⟨hquote, hk, rfl⟩
    obtain ⟨hplain, hreserved, hfind⟩ := hunguarded k hk
    refine ⟨?_, (keyword?_of_isPlain hplain hreserved).trans hfind⟩
    simp [identifier, hquote, hplain, hreserved]

/-! ### The words of statements -/

/-- A word that a statement is written with: a keyword, or the name of a table or a column. -/
inductive Word where
  | keyword (text : String)
  | name (text : String)
  deriving Repr, DecidableEq

/-- The keyword of such a word. -/
def Word.keyword? : Word → Option String
  | .keyword text => some text
  | .name _ => none

/-- The keywords that a value is written with. -/
def Dialect.words (dialect : Dialect) : Value → List Word
  | .null => [.keyword "NULL"]
  | .bool b =>
    match dialect with
    | .postgres => [.keyword (if b then "TRUE" else "FALSE")]
    | .sqlite => []
  | _ => []

/-- The keywords that an operator is written with. -/
def Operator.words : Operator → List Word
  | .null => [.keyword "NULL"]
  | .and => [.keyword "AND"]
  | .or => [.keyword "OR"]
  | .equalsNull => [.keyword "IS", .keyword "NULL"]
  | .notEqualsNull => [.keyword "IS", .keyword "NOT", .keyword "NULL"]
  | _ => []

/-- The keywords in the alias of a table. -/
def aliasWords (aliasName : String) : List Word :=
  (keywordsIn aliasName).map .keyword

namespace Printer

variable (p : Printer)

mutual

/-- The keywords and names that a term is written with, in their order. -/
def termWords (p : Printer) : Term → List Word
  | .literal value => p.dialect.words value
  | .column table name => aliasWords table ++ [.name name]
  | .binary left op right _ => p.termWords left ++ op.words ++ p.termWords right
  | .negative operand => p.termWords operand
  | .not operand => .keyword "NOT" :: p.termWords operand
  | .isNull operand op => p.termWords operand ++ op.words
  | .inList item list negated =>
    p.termWords item ++ (if negated then [.keyword "NOT"] else []) ++
      .keyword "IN" :: p.termsWords list
  | .like item pattern negated escaped =>
    p.termWords item ++ (if negated then [.keyword "NOT"] else []) ++
      .keyword "LIKE" :: p.termWords pattern ++ if escaped then [.keyword "ESCAPE"] else []
  | .concat parts => p.termsWords parts
  | .conditional test ifTrue ifFalse =>
    [.keyword "CASE", .keyword "WHEN"] ++ p.termWords test ++
      .keyword "THEN" :: p.termWords ifTrue ++
      .keyword "ELSE" :: p.termWords ifFalse ++ [.keyword "END"]
  | .call _ args => p.termsWords args

/-- The keywords and names that some terms are written with. -/
def termsWords (p : Printer) : List Term → List Word
  | [] => []
  | t :: rest => p.termWords t ++ p.termsWords rest

end

/-- The words of a projected column. -/
def columnWords (c : SelectColumn) : List Word :=
  aliasWords c.table ++ .name c.name :: if c.label.isSome then [.keyword "AS"] else []

/-- The words of a projection. -/
def projectionWords : Projection → List Word
  | .columns columns => columns.flatMap columnWords
  | .count | .one => []

/-- The words of a join. -/
def joinWords (j : Join) : List Word :=
  [.keyword "LEFT", .keyword "JOIN", .name j.table, .keyword "AS"] ++ aliasWords j.aliasName ++
    .keyword "ON" :: aliasWords j.aliasName ++ .name j.key :: aliasWords j.parentAlias ++
    [.name j.foreignKey]

/-- The words of the end of a statement. -/
def endingWords (limit offset : Option Nat) : List Word :=
  (if limit.isSome || (p.dialect == .sqlite && offset.isSome) then [.keyword "LIMIT"] else []) ++
    if offset.isSome then [.keyword "OFFSET"] else []

/-- The words of a key of an order. -/
def orderWords (o : OrderBy) : List Word :=
  p.termWords o.key ++ [.keyword (if o.descending then "DESC" else "ASC")]

/-- The keywords and names that a statement is written with, in their order. -/
def queryWords (q : Query) : List Word :=
  .keyword "SELECT" :: projectionWords q.projection ++
    [.keyword "FROM", .name q.table, .keyword "AS"] ++ aliasWords q.aliasName ++
    q.joins.flatMap joinWords ++
    (q.filter.toList.flatMap fun f => .keyword "WHERE" :: p.termWords f) ++
    (if q.order.isEmpty then []
      else [.keyword "ORDER", .keyword "BY"] ++ q.order.flatMap p.orderWords) ++
    p.endingWords q.limit q.offset

theorem termsWords_eq_flatMap (list : List Term) :
    p.termsWords list = list.flatMap p.termWords := by
  induction list with
  | nil => rfl
  | cons t rest ih => rw [termsWords, ih, List.flatMap_cons]

/-- It does not matter to its words whether an operator stands between parentheses. -/
theorem termWords_unparenthesized (a : Term) :
    p.termWords a.unparenthesized = p.termWords a := by
  cases a <;> rfl

/-! ### Reading words -/

/-- The keywords that a reader finds in a word: a keyword itself, and a name that is no longer told
from one. -/
def readAs : Word → List String
  | .keyword text => [text]
  | .name text =>
    if p.quoteIdentifiers then []
    else (unguarded.find? fun k => Text.toLowerAscii k == text).toList

@[simp]
theorem readAs_keyword (text : String) : p.readAs (.keyword text) = [text] := rfl

@[simp]
theorem flatMap_readAs_aliasWords (aliasName : String) :
    (aliasWords aliasName).flatMap p.readAs = keywordsIn aliasName := by
  rw [aliasWords, List.flatMap_map]
  exact List.flatMap_singleton' _

theorem readAs_name_ne_nil_iff {name : String} :
    p.readAs (.name name) ≠ [] ↔
      p.quoteIdentifiers = false ∧ ∃ k ∈ unguarded, Text.toLowerAscii k = name := by
  cases hquote : p.quoteIdentifiers <;> simp [readAs, hquote]

/-- Nothing of what was written as a keyword is lost to a reader. -/
theorem filterMap_keyword?_sublist (words : List Word) :
    (words.filterMap Word.keyword?).Sublist (words.flatMap p.readAs) := by
  induction words with
  | nil => exact .slnil
  | cons word rest ih =>
    cases word with
    | keyword text => exact ih.cons_cons text
    | name text => exact ih.trans (List.sublist_append_right _ _)

/-- A reader finds the keywords that were written as such, and no others, if it takes no name for a
keyword. -/
theorem flatMap_readAs_eq_iff {words : List Word} :
    words.flatMap p.readAs = words.filterMap Word.keyword? ↔
      ∀ name, .name name ∈ words → p.readAs (.name name) = [] := by
  induction words with
  | nil => simp
  | cons word rest ih =>
    cases word with
    | keyword text => simp [Word.keyword?, ih]
    | name text =>
      have hsublist := (p.filterMap_keyword?_sublist rest).length_le
      rw [List.flatMap_cons, List.filterMap_cons_none rfl]
      constructor
      · intro heq
        -- A keyword more in front would make the list too long.
        have hlength := congrArg List.length heq
        rw [List.length_append] at hlength
        have hnone : p.readAs (.name text) = [] := List.length_eq_zero_iff.1 (by omega)
        rw [hnone, List.nil_append] at heq
        intro name hmem
        rcases List.mem_cons.1 hmem with hname | hmem
        · rw [hname, hnone]
        · exact ih.1 heq name hmem
      · intro hall
        rw [hall text List.mem_cons_self, List.nil_append]
        exact ih.2 fun name hmem => hall name (List.mem_cons_of_mem _ hmem)

end Printer

/-- There are no keywords in numbers. -/
theorem finds_of_numerals {x : List Char} (h : Numerals x) : Finds keyword? x [] := by
  have hnumeral : ∀ c, Text.isNumeral c = true → Text.isQuote c = false ∧ c.toLower = c := by
    intro c hc
    refine ⟨Bool.eq_false_iff.2 fun hquote => ?_, ?_⟩
    · rcases Bool.or_eq_true_iff.1 hquote with h | h <;> rw [beq_iff_eq.1 h] at hc <;> cases hc
    · rcases Bool.or_eq_true_iff.1 hc with hdigit | hother
      · exact toLower_of_isDigit hdigit
      · have hall : ['-', '+', '.', ':', ' ', 'e'].all (fun d => d.toLower == d) = true := by
          decide
        exact beq_iff_eq.1 (List.all_eq_true.1 hall c (List.contains_iff_mem.1 hother))
  have hkeywords : ∀ k ∈ keywords, (k.toList.map Char.toLower).all Text.isNumeral = false := by
    decide
  refine Finds.of_unquoted (fun c hc => (hnumeral c (h c hc)).1) ?_
  rw [List.filterMap_eq_nil_iff]
  intro word hword
  refine List.find?_eq_none.2 fun k hk heq => ?_
  have hlower : word.map Char.toLower = word :=
    (List.map_congr_left fun c hc => (hnumeral c (h c (Text.subset_of_mem_words hword hc))).2).trans
      (List.map_id word)
  have hall := hkeywords k hk
  rw [beq_iff_eq.1 heq, hlower, List.all_eq_false] at hall
  obtain ⟨c, hc, hnot⟩ := hall
  exact hnot (h c (Text.subset_of_mem_words hword hc))

/-- The keywords of a literal are those that it is written with. -/
theorem Dialect.finds_literal (p : Printer) (v : Value) :
    Finds keyword? (p.dialect.literal v).toList ((p.dialect.words v).flatMap p.readAs) := by
  have hquoted : ∀ s : String, Finds keyword? (Text.quoted '\'' s).toList [] :=
    Finds.quoted rfl
  have hword : ∀ s ∈ ["NaN", "inf", "-inf", "1", "0", "DATE ", "TIMESTAMP ", "::bytea", "X"],
      Finds keyword? s.toList [] := by
    intro s hs
    have hall : ∀ s ∈ ["NaN", "inf", "-inf", "1", "0", "DATE ", "TIMESTAMP ", "::bytea", "X"],
        s.toList.all (!Text.isQuote ·) = true ∧ (Text.words s.toList).filterMap keyword? = [] := by
      decide
    exact .word s (hall s hs).1 (hall s hs).2
  cases v with
  | null => exact .word "NULL" (by decide) rfl
  | bool b =>
    unfold literal words
    cases p.dialect with
    | postgres => cases b <;> exact .word _ (by decide) rfl
    | sqlite => cases b <;> exact hword _ (by decide)
  | int i => exact finds_of_numerals (Text.numerals_int i.toInt)
  | float x =>
    rcases Binary64.render_cases x with h | h | h | h
    · exact h ▸ hword _ (by decide)
    · exact h ▸ hword _ (by decide)
    · exact h ▸ hword _ (by decide)
    · exact finds_of_numerals h
  | string s => exact hquoted s
  | date d =>
    rw [literal_date]
    cases p.dialect with
    | postgres =>
      rw [String.toList_append]
      exact (hword _ (by decide)).after (by decide) (hquoted _)
    | sqlite => exact hquoted _
  | dateTime t =>
    rw [literal_dateTime]
    cases p.dialect with
    | postgres =>
      rw [String.toList_append]
      exact (hword _ (by decide)).after (by decide) (hquoted _)
    | sqlite => exact hquoted _
  | bytes b =>
    rw [literal_bytes]
    cases p.dialect with
    | postgres =>
      rw [String.toList_append]
      exact (hquoted _).before (by decide) (hword _ (by decide))
    | sqlite =>
      rw [String.toList_append]
      exact (hword _ (by decide)).before (Text.startsApart_quoted rfl _) (hquoted _)
  | list | record => exact .nil

/-- The keywords of an operator are those that it is written with. -/
theorem Operator.finds_token (p : Printer) (op : Operator) :
    Finds keyword? op.token.toList (op.words.flatMap p.readAs) := by
  cases op <;> exact .word _ (by decide) rfl

namespace Printer

variable (p : Printer)

/-- A name that is quoted has no keyword in it, and another one has at most that which it is. -/
theorem finds_identifier (name : String) :
    Finds keyword? (p.identifier name).toList (p.readAs (.name name)) := by
  rcases p.identifier_cases name with hquoted | ⟨hname, hquote, hplain, hreserved⟩
  · have hnone : p.readAs (.name name) = [] := by
      rw [readAs]
      split
      · rfl
      · next hquote =>
        refine Option.toList_eq_nil_iff.2 (List.find?_eq_none.2 fun k hk heq => ?_)
        -- An unguarded keyword would have been written as it is.
        have hself := p.keyword?_identifier_iff.2
          ⟨by simpa using hquote, hk, (beq_iff_eq.1 heq).symm⟩
        exact absurd (hquoted.symm.trans hself.1) (quoted_ne _ _)
    rw [hnone, hquoted]
    exact .quoted rfl name
  · obtain ⟨hne, hchars⟩ := forall_mem_of_isPlain hplain
    have hwords : Text.words name.toList = [name.toList] :=
      Text.words_eq_singleton hne fun c hc => (hchars c hc).1
    have hquotes : ∀ c ∈ name.toList, Text.isQuote c = false := fun c hc =>
      Text.isQuote_of_isBare (bare_of_isPlain hplain c hc)
    rw [hname]
    refine Finds.of_unquoted hquotes ?_
    rw [hwords, readAs, hquote, ← keyword?_of_isPlain hplain hreserved]
    cases hkeyword : keyword? name.toList <;> simp [hkeyword]

end Printer

/-! ### Clauses -/

theorem finds_comma : Finds keyword? ", ".toList [] :=
  .word _ (by decide) (by decide)

theorem finds_point : Finds keyword? ".".toList [] :=
  .word _ (by decide) (by decide)

theorem Dialect.finds_numbered (clause : String) (n : Option Nat)
    (h : Finds keyword? (" " ++ clause ++ " ").toList [clause])
    (hends : EndsApart (Text.outside none (" " ++ clause ++ " ").toList)) :
    StartsApart (numbered clause n).toList ∧
      Finds keyword? (numbered clause n).toList (if n.isSome then [clause] else []) := by
  cases n with
  | none => exact ⟨.nil, .nil⟩
  | some n =>
    have hstart : StartsApart (numbered clause (some n)).toList := by
      simp only [numbered, String.toList_append, List.append_assoc]
      exact Text.startsApart_cons rfl
    have hnumber := finds_of_numerals (Text.numerals_nat n)
    refine ⟨hstart, ?_⟩
    rw [numbered, String.toList_append]
    exact (h.after hends hnumber).congr (by simp)

/-- Limits and offsets have no keywords but their own. -/
theorem Dialect.finds_ending (p : Printer) (limit offset : Option Nat) (terminate : Bool) :
    StartsApart (p.dialect.ending limit offset terminate).toList ∧
      Finds keyword? (p.dialect.ending limit offset terminate).toList
        ((p.endingWords limit offset).flatMap p.readAs) := by
  obtain ⟨hstartLimit, hlimit⟩ :=
    finds_numbered "LIMIT" limit (.word _ (by decide) rfl) (by decide)
  obtain ⟨hstartOffset, hoffset⟩ :=
    finds_numbered "OFFSET" offset (.word _ (by decide) rfl) (by decide)
  have hend : StartsApart (if terminate then ";" else "").toList ∧
      Finds keyword? (if terminate then ";" else "").toList [] := by
    cases terminate
    · exact ⟨.nil, .nil⟩
    · exact ⟨by decide, .word _ (by decide) rfl⟩
  obtain ⟨limited, hending, hcases⟩ := p.dialect.ending_cases limit offset terminate
  have hlimited : StartsApart limited.toList ∧ Finds keyword? limited.toList
      (if limit.isSome || (p.dialect == .sqlite && offset.isSome) then ["LIMIT"] else []) := by
    rcases hcases with ⟨rfl, hwritten⟩ | ⟨rfl, hasked⟩
    · rw [hwritten, Bool.or_true]
      exact ⟨by decide, .word " LIMIT -1" (by decide) rfl⟩
    · rw [hasked]
      exact ⟨hstartLimit, hlimit⟩
  rw [hending, String.toList_append, String.toList_append, List.append_assoc]
  refine ⟨hlimited.1.append (hstartOffset.append hend.1), ?_⟩
  refine (hlimited.2.before (hstartOffset.append hend.1) (hoffset.before hend.1 hend.2)).congr ?_
  simp only [Printer.endingWords, List.flatMap_append, List.append_nil]
  congr 1 <;> split <;> simp

namespace Printer

variable (p : Printer)

theorem finds_selectColumn {x : SelectColumn}
    (h : Finds keyword? x.table.toList (keywordsIn x.table)) :
    Finds keyword? (p.selectColumn x).toList ((Printer.columnWords x).flatMap p.readAs) := by
  have has : Finds keyword? " AS ".toList ["AS"] := .word _ (by decide) (by decide)
  have hname := h.separated finds_point (by decide) (p.finds_identifier x.name)
  unfold selectColumn
  rw [String.toList_append, String.toList_append, String.toList_append]
  cases hlabel : x.label with
  | none =>
    have hnone : Finds keyword? "".toList [] := .nil
    exact (hname.before .nil hnone).congr (by simp [columnWords, hlabel])
  | some label =>
    rw [String.toList_append, ← List.append_assoc]
    exact (hname.separated has (by decide) (.quoted rfl label)).congr
      (by simp [columnWords, hlabel])

theorem finds_join {j : Join}
    (halias : Finds keyword? j.aliasName.toList (keywordsIn j.aliasName))
    (hparent : Finds keyword? j.parentAlias.toList (keywordsIn j.parentAlias)) :
    StartsApart (p.join j).toList ∧
      Finds keyword? (p.join j).toList ((Printer.joinWords j).flatMap p.readAs) := by
  have hjoin : Finds keyword? " LEFT JOIN ".toList ["LEFT", "JOIN"] :=
    .word _ (by decide) (by decide)
  have has : Finds keyword? " AS ".toList ["AS"] := .word _ (by decide) (by decide)
  have hon : Finds keyword? " ON ".toList ["ON"] := .word _ (by decide) (by decide)
  have hequals : Finds keyword? " = ".toList [] := .word _ (by decide) (by decide)
  have hstart := hjoin.after (by decide) (p.finds_identifier j.table)
  have htable := hstart.separated has (by decide) halias
  have hkey := (htable.separated hon (by decide) halias).separated finds_point (by decide)
    (p.finds_identifier j.key)
  have hall := (hkey.separated hequals (by decide) hparent).separated finds_point (by decide)
    (p.finds_identifier j.foreignKey)
  have htext : (p.join j).toList = (" LEFT JOIN " ++ p.identifier j.table ++ " AS " ++
    j.aliasName ++ " ON " ++ j.aliasName ++ "." ++ p.identifier j.key ++ " = " ++ j.parentAlias ++
    "." ++ p.identifier j.foreignKey).toList := rfl
  rw [htext]
  simp only [String.toList_append]
  refine ⟨?_, hall.congr (by simp [joinWords])⟩
  simp only [List.append_assoc]
  exact StartsApart.append_of_ne_nil (by decide) (by decide)

end Printer

end PredicateSql.Sql
