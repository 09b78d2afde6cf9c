import PredicateSql.Proofs.Text.Numerals
import PredicateSql.Proofs.Text.Scanning
import PredicateSql.Sql.Printer

/-!
# The texts of statements

* `Dialect.literal_date`, `Dialect.literal_bytes` and so on: there is no quote in a date, a time or a
  blob, so they are quoted like texts.
* `Dialect.spelled_literal`: literals have no brackets and start no comment.
  `Dialect.head?_literal`: a literal starts with a minus sign if and only if its value has one.
* `Printer.spelled_identifier`: names have no brackets and start no comment, and neither do the
  clauses that are made of them (`Printer.spelled_join`, `Dialect.spelled_ending`).
* `Printer.toList_not` and so on: the text of a term in those of its parts, with every opening
  bracket next to what it encloses.
-/

namespace PredicateSql

open Text (Spelled Unsigned Balanced Quiet isInert)

/-! ### Numbers -/

theorem Text.isInert_of_isDigit {c : Char} (h : c.isDigit = true) : isInert c = true :=
  isInert_of_any (p := Char.isDigit) (by decide) h

theorem Text.isInert_of_mem_nat {n : Nat} : ∀ c ∈ (toString n).toList, isInert c = true := by
  intro c hc
  rw [Nat.toString_eq_repr, Nat.toList_repr] at hc
  exact isInert_of_isDigit (Nat.isDigit_of_mem_toDigits (by decide) (by decide) hc)

theorem Text.unsigned_nat (n : Nat) : Unsigned (toString n).toList := by
  refine .of_inert ?_ isInert_of_mem_nat
  rw [Nat.toString_eq_repr, Nat.toList_repr]
  exact Nat.toDigits_ne_nil

theorem Text.spelled_int (i : Int) : Spelled (toString i).toList := by
  rw [Text.toList_int]
  split
  · exact (unsigned_nat _).negated
  · exact (unsigned_nat _).spelled

/-- The digits of a decimal that is written positionally. -/
theorem Binary64.unsigned_positional {digits : List Char} (hdigits : Unsigned digits)
    (h : ∀ c ∈ digits, isInert c = true) (whole : Int) :
    Unsigned (Layout.positional digits whole) := by
  have hzeros : ∀ n : Nat, ∀ c ∈ List.replicate n '0', isInert c = true := by
    intro n c hc
    obtain rfl := List.eq_of_mem_replicate hc
    rfl
  have hpoint : isInert '.' = true := rfl
  unfold Layout.positional
  -- The point stands before the digits, after them, or between them.
  split
  · refine .of_inert (List.cons_ne_nil _ _) ?_
    simp only [List.forall_mem_cons, List.forall_mem_append]
    exact ⟨rfl, hpoint, hzeros _, h⟩
  · extract_lets n
    split
    · exact (hdigits.append (.of_inert (hzeros _))).append (.inert hpoint (.inert rfl .nil))
    · refine .of_inert (by simp) ?_
      simp only [List.forall_mem_cons, List.forall_mem_append]
      exact ⟨fun c hc => h c (List.mem_of_mem_take hc), hpoint,
        fun c hc => h c (List.mem_of_mem_drop hc)⟩

theorem Binary64.unsigned_scientific {digits : List Char} (hdigits : Unsigned digits)
    (h : ∀ c ∈ digits, isInert c = true) (lead : Int) :
    Unsigned (Layout.scientific digits lead) := by
  -- The exponent may have a minus sign, but it does not stand next to another one.
  have hexponent : Spelled ('e' :: (toString lead).toList) :=
    .inert (by decide) (Text.spelled_int lead)
  unfold Layout.scientific
  refine Unsigned.append ?_ hexponent
  split
  · refine .of_inert (List.cons_ne_nil _ _) ?_
    simp only [List.forall_mem_cons] at h ⊢
    exact ⟨h.1, rfl, h.2⟩
  · exact hdigits

theorem Binary64.unsigned_decimal (layout : Layout) (d : Decimal) :
    Unsigned (layout.decimal d) := by
  have hdigits := Text.unsigned_nat d.coefficient
  have hinert := Text.isInert_of_mem_nat (n := d.coefficient)
  unfold Layout.decimal
  extract_lets digits lead
  split
  · exact unsigned_positional hdigits hinert _
  · exact unsigned_scientific hdigits hinert _

/-! ### Literals -/

/-- A double with a minus sign, the negative zero among them. -/
def Binary64.Parts.isNegative : Parts → Bool
  | .nan => false
  | .infinite negative | .finite negative _ _ => negative

/-- A number with a minus sign. -/
def Value.isSigned : Value → Bool
  | .int i => i.toInt < 0
  | .float x => (Binary64.parts x).isNegative
  | _ => false

/-- A double is written without a sign, or with a minus sign before such a text. -/
theorem Binary64.toList_render (x : Float) :
    ∃ text, Unsigned text ∧
      (render x).toList = if (parts x).isNegative then '-' :: text else text := by
  unfold render Layout.render
  cases parts x with
  | nan => exact ⟨"NaN".toList, .word _ (by decide) (by decide), rfl⟩
  | infinite negative =>
    exact ⟨"inf".toList, .word _ (by decide) (by decide), String.toList_ofList⟩
  | finite negative m q =>
    refine ⟨if m = 0 then Layout.positional ['0'] 1 else layout.decimal (shortest m q), ?_,
      String.toList_ofList⟩
    split
    · exact ⟨'0', ['.', '0'], rfl, rfl, .inert rfl (.inert rfl .nil)⟩
    · exact unsigned_decimal _ _

namespace Sql

theorem not_mem_numerals {x : List Char} (h : Text.Numerals x) : '\'' ∉ x := by
  intro hquote
  cases h _ hquote

theorem not_mem_hexOfBytes {ten : Char} (hten : ten = 'a' ∨ ten = 'A') (bytes : List UInt8) :
    '\'' ∉ (Text.hexOfBytes ten bytes).toList := by
  have hdigit : ∀ n < 16, '\'' ≠ Text.hexDigit ten n := by
    rcases hten with rfl | rfl <;> decide
  intro hquote
  obtain ⟨n, hn, heq⟩ := Text.exists_of_mem_hexOfBytes hquote
  exact hdigit n hn heq

theorem Dialect.literal_date (dialect : Dialect) (d : Date) : dialect.literal (.date d) =
    match dialect with
    | .postgres => "DATE " ++ Text.quoted '\'' d.render
    | .sqlite => Text.quoted '\'' d.render := by
  cases dialect with
  | postgres =>
    have hquoted := Text.quoted_of_not_mem (not_mem_numerals d.numerals_render)
    apply String.toList_inj.1
    simp [literal, hquoted]
  | sqlite => rfl

theorem Dialect.literal_dateTime (dialect : Dialect) (t : DateTime) :
    dialect.literal (.dateTime t) =
      match dialect with
      | .postgres => "TIMESTAMP " ++ Text.quoted '\'' t.render
      | .sqlite => Text.quoted '\'' t.render := by
  cases dialect with
  | postgres =>
    have hquoted := Text.quoted_of_not_mem (not_mem_numerals t.numerals_render)
    apply String.toList_inj.1
    simp [literal, hquoted]
  | sqlite => rfl

theorem Dialect.literal_bytes (dialect : Dialect) (b : List UInt8) : dialect.literal (.bytes b) =
    match dialect with
    | .postgres => Text.quoted '\'' ("\\x" ++ Text.hexOfBytes 'a' b) ++ "::bytea"
    | .sqlite => "X" ++ Text.quoted '\'' (Text.hexOfBytes 'A' b) := by
  apply String.toList_inj.1
  cases dialect with
  | postgres =>
    have hdigits := not_mem_hexOfBytes (.inl rfl) b
    have hmem : '\'' ∉ ("\\x" ++ Text.hexOfBytes 'a' b).toList := by simp [hdigits]
    have hquoted := Text.quoted_of_not_mem hmem
    simp [literal, hquoted]
  | sqlite =>
    have hquoted := Text.quoted_of_not_mem (not_mem_hexOfBytes (.inr rfl) b)
    simp [literal, hquoted]

/-- A literal has no brackets and starts no comment. -/
theorem Dialect.spelled_literal (dialect : Dialect) (v : Value) :
    Spelled (dialect.literal v).toList := by
  have hquoted : ∀ s : String, Spelled (Text.quoted '\'' s).toList :=
    Spelled.of_quoted rfl
  -- One case for each kind of value. A dialect may write a type next to a quoted text.
  cases v with
  | null => exact Spelled.word "NULL" (by decide)
  | bool b => cases dialect <;> cases b <;> exact Spelled.word _ (by decide)
  | int i => exact Text.spelled_int _
  | float x =>
    obtain ⟨text, htext, hrender⟩ := Binary64.toList_render x
    rw [literal, hrender]
    split
    · exact htext.negated
    · exact htext.spelled
  | string s => exact hquoted s
  | date d =>
    rw [literal_date]
    cases dialect with
    | postgres =>
      rw [String.toList_append]
      exact (Spelled.word _ (by decide)).append (hquoted _)
    | sqlite => exact hquoted _
  | dateTime t =>
    rw [literal_dateTime]
    cases dialect with
    | postgres =>
      rw [String.toList_append]
      exact (Spelled.word _ (by decide)).append (hquoted _)
    | sqlite => exact hquoted _
  | bytes b =>
    rw [literal_bytes]
    cases dialect with
    | postgres =>
      rw [String.toList_append]
      exact (hquoted _).append (Spelled.word _ (by decide))
    | sqlite =>
      rw [String.toList_append]
      exact (Spelled.word _ (by decide)).append (hquoted _)
  | list | record => exact .nil

/-- A literal starts with a minus sign if and only if its value has one. -/
theorem Dialect.head?_literal (dialect : Dialect) (v : Value) :
    (dialect.literal v).toList.head? = some '-' ↔ v.isSigned = true := by
  have hnumber : ∀ (text : List Char) (signed : Bool), Unsigned text →
      ((if signed then '-' :: text else text).head? = some '-' ↔ signed = true) := by
    intro text signed htext
    cases signed with
    | false => exact iff_of_false htext.head?_ne Bool.false_ne_true
    | true => exact iff_of_true rfl rfl
  -- Only numbers are written with a sign.
  cases v with
  | int i =>
    have h := hnumber _ (decide (i.toInt < 0)) (Text.unsigned_nat i.toInt.natAbs)
    rw [literal, Text.toList_int, Value.isSigned]
    simpa only [decide_eq_true_eq] using h
  | float x =>
    obtain ⟨text, htext, hrender⟩ := Binary64.toList_render x
    rw [literal, hrender]
    exact hnumber text _ htext
  | bool b => cases dialect <;> cases b <;> simp [literal, Value.isSigned]
  | _ => cases dialect <;> simp [literal, Value.isSigned, Text.quoted]

/-- Whatever can be written as a literal has a text. -/
theorem Dialect.literal_ne_nil (dialect : Dialect) {v : Value} (h : hasLiteral v = true) :
    (dialect.literal v).toList ≠ [] := by
  cases v with
  | int i =>
    rw [literal, Text.toList_int]
    split
    · exact List.cons_ne_nil _ _
    · exact (Text.unsigned_nat _).ne_nil
  | float x =>
    obtain ⟨text, htext, hrender⟩ := Binary64.toList_render x
    rw [literal, hrender]
    split
    · exact List.cons_ne_nil _ _
    · exact htext.ne_nil
  | bool b => cases dialect <;> cases b <;> simp [literal]
  | list | record => cases h
  | _ => cases dialect <;> simp [literal, Text.quoted]

/-! ### Names -/

/-- A plain name has no special characters. -/
theorem unsigned_of_isPlain {name : List Char} (h : isPlain name = true) : Unsigned name := by
  cases name with
  | nil => cases h
  | cons c rest =>
    have hstart : ∀ d, isPlainStart d = true → isInert d = true :=
      fun _ => Text.isInert_of_any (p := isPlainStart) (by decide)
    have hrest : ∀ d, (isPlainStart d || d.isDigit) = true → isInert d = true :=
      fun _ => Text.isInert_of_any (p := fun d => isPlainStart d || d.isDigit) (by decide)
    rw [isPlain, Bool.and_eq_true, List.all_eq_true] at h
    refine .of_inert (List.cons_ne_nil _ _) ?_
    rw [List.forall_mem_cons]
    exact ⟨hstart c h.1, fun d hd => hrest d (h.2 d hd)⟩

/-- A name is written between quotes, or as it is if it is plain and not reserved. -/
theorem Printer.identifier_cases (p : Printer) (name : String) :
    p.identifier name = Text.quoted '"' name ∨
      p.identifier name = name ∧ p.quoteIdentifiers = false ∧ isPlain name.toList = true ∧
        name ∉ reservedNames := by
  unfold identifier
  split
  · exact .inl rfl
  · next h =>
    refine .inr ⟨rfl, ?_⟩
    simpa [and_assoc] using h

/-- A name has no brackets and starts no comment: it is plain, or it is quoted. -/
theorem Printer.spelled_identifier (p : Printer) (name : String) :
    Spelled (p.identifier name).toList := by
  rcases p.identifier_cases name with hquoted | ⟨hname, -, hplain, -⟩
  · rw [hquoted]
    exact .of_quoted rfl name
  · rw [hname]
    exact (unsigned_of_isPlain hplain).spelled

/-! ### Terms -/

/-- Only the sign of a number is an operator without blanks around it. -/
theorem Operator.spelled_token {op : Operator} (h : op ≠ .negative) : Spelled op.token.toList := by
  have hsign : ∀ c, Text.isSign c = true → Spelled [' ', c, ' '] :=
    fun c hc => .inert rfl (.sign hc rfl .nil)
  cases op with
  | negative => exact absurd rfl h
  | subtract | multiply | divide => exact hsign _ rfl
  | _ => exact .word _ (by decide)

namespace Printer

variable (p : Printer)

theorem terms_eq_map (list : List Term) : p.terms list = list.map p.term := by
  induction list with
  | nil => rfl
  | cons t rest ih => exact congrArg (List.cons (p.term t)) ih

/-- The text of a list of terms with commas, or other separators, between them. -/
theorem toList_terms (separator : String) (list : List Term) :
    (separator.intercalate (p.terms list)).toList =
      separator.toList.intercalate (list.map fun t => (p.term t).toList) := by
  rw [String.toList_intercalate, terms_eq_map, List.map_map]
  rfl

theorem term_column (table name : String) :
    p.term (.column table name) = table ++ "." ++ p.identifier name :=
  rfl

theorem term_binary (left right : Term) (op : Operator) (parenthesized : Bool) :
    p.term (.binary left op right parenthesized) =
      if parenthesized then "(" ++ (p.term left ++ op.token ++ p.term right) ++ ")"
      else p.term left ++ op.token ++ p.term right :=
  rfl

theorem term_negative (operand : Term) :
    p.term (.negative operand) = "(" ++ Operator.negative.token ++ p.term operand ++ ")" :=
  rfl

theorem term_not (operand : Term) : p.term (.not operand) = "(NOT " ++ p.term operand ++ ")" :=
  rfl

theorem term_isNull (operand : Term) (op : Operator) :
    p.term (.isNull operand op) = "(" ++ p.term operand ++ ")" ++ op.token :=
  rfl

theorem term_inList (item : Term) (list : List Term) (negated : Bool) :
    p.term (.inList item list negated) =
      "(" ++ p.term item ++ (if negated then " NOT " else " ") ++ "IN (" ++
        ", ".intercalate (p.terms list) ++ "))" :=
  rfl

theorem term_like (item pattern : Term) (negated escaped : Bool) :
    p.term (.like item pattern negated escaped) =
      "(" ++ p.term item ++ (if negated then " NOT " else " ") ++ "LIKE " ++ p.term pattern ++
        (if escaped then " ESCAPE '\\'" else "") ++ ")" :=
  rfl

theorem term_concat (parts : List Term) :
    p.term (.concat parts) = "(" ++ " || ".intercalate (p.terms parts) ++ ")" :=
  rfl

theorem term_conditional (test ifTrue ifFalse : Term) :
    p.term (.conditional test ifTrue ifFalse) =
      "CASE WHEN " ++ p.term test ++ " THEN " ++ p.term ifTrue ++ " ELSE " ++ p.term ifFalse ++
        " END" :=
  rfl

theorem term_call (function : String) (args : List Term) :
    p.term (.call function args) = function ++ "(" ++ ", ".intercalate (p.terms args) ++ ")" :=
  rfl

theorem toList_column (table name : String) :
    (p.term (.column table name)).toList =
      table.toList ++ '.' :: (p.identifier name).toList := by
  simp [term_column]

theorem toList_unparenthesized (left right : Term) (op : Operator) :
    (p.term (.binary left op right false)).toList =
      (p.term left).toList ++ op.token.toList ++ (p.term right).toList := by
  simp [term_binary]

theorem toList_operation (left right : Term) (op : Operator) :
    (p.term (.binary left op right true)).toList =
      '(' :: ((p.term left).toList ++ op.token.toList ++ (p.term right).toList) ++ [')'] := by
  simp [term_binary]

theorem toList_negative (operand : Term) :
    (p.term (.negative operand)).toList = '(' :: '-' :: (p.term operand).toList ++ [')'] := by
  simp [term_negative, Operator.token]

theorem toList_not (operand : Term) :
    (p.term (.not operand)).toList =
      '(' :: ("NOT ".toList ++ (p.term operand).toList) ++ [')'] := by
  simp [term_not]

theorem toList_isNull (operand : Term) (op : Operator) :
    (p.term (.isNull operand op)).toList =
      '(' :: (p.term operand).toList ++ ')' :: op.token.toList := by
  simp [term_isNull]

theorem toList_inList (item : Term) (list : List Term) (negated : Bool) :
    (p.term (.inList item list negated)).toList =
      '(' :: ((p.term item).toList ++ (if negated then " NOT IN " else " IN ").toList ++
        ('(' :: ", ".toList.intercalate (list.map fun t => (p.term t).toList) ++ [')'])) ++
        [')'] := by
  rw [← toList_terms, term_inList]
  cases negated <;> simp

theorem toList_like (item pattern : Term) (negated escaped : Bool) :
    (p.term (.like item pattern negated escaped)).toList =
      '(' :: ((p.term item).toList ++ (if negated then " NOT LIKE " else " LIKE ").toList ++
        (p.term pattern).toList ++
        (if escaped then " ESCAPE ".toList ++ (Text.quoted '\'' "\\").toList else [])) ++
        [')'] := by
  rw [term_like]
  cases negated <;> cases escaped <;> simp [Text.quoted, Text.doubled]

theorem toList_concat (parts : List Term) :
    (p.term (.concat parts)).toList =
      '(' :: " || ".toList.intercalate (parts.map fun t => (p.term t).toList) ++ [')'] := by
  rw [← toList_terms, term_concat]
  simp

theorem toList_conditional (test ifTrue ifFalse : Term) :
    (p.term (.conditional test ifTrue ifFalse)).toList =
      "CASE WHEN ".toList ++ (p.term test).toList ++ " THEN ".toList ++
        (p.term ifTrue).toList ++ " ELSE ".toList ++ (p.term ifFalse).toList ++
        " END".toList := by
  simp only [term_conditional, String.toList_append]

theorem toList_call (function : String) (args : List Term) :
    (p.term (.call function args)).toList =
      function.toList ++
        ('(' :: ", ".toList.intercalate (args.map fun t => (p.term t).toList) ++ [')']) := by
  rw [← toList_terms, term_call]
  simp

/-! ### Statements -/

theorem orderBy_eq (o : OrderBy) :
    p.orderBy o = p.term o.key ++ (if o.descending then " DESC" else " ASC") :=
  rfl

theorem query_eq (q : Query) : p.query q =
    "SELECT " ++ p.projection q.projection ++ " FROM " ++ p.identifier q.table ++ " AS " ++
      q.aliasName ++ String.join (q.joins.map p.join) ++
      (match q.filter with
      | none => ""
      | some filter => " WHERE " ++ p.term filter) ++
      (if q.order.isEmpty then "" else " ORDER BY " ++ ", ".intercalate (q.order.map p.orderBy)) ++
      p.dialect.ending q.limit q.offset p.terminate := by
  have hkeys : Id.run (q.order.mapM (p.writeOrderBy p.dialect.literal)) = q.order.map p.orderBy :=
    List.idRun_mapM
  have horder : Id.run (p.writeOrder p.dialect.literal q.order) =
      if q.order.isEmpty then "" else " ORDER BY " ++ ", ".intercalate (q.order.map p.orderBy) := by
    rw [← hkeys, writeOrder]
    split <;> rfl
  rw [← horder]
  rw [query, writeQuery]
  cases q.filter <;> rfl

variable {p}

theorem spelled_selectColumn {x : SelectColumn} (h : Spelled x.table.toList) :
    Spelled (p.selectColumn x).toList := by
  have hname := (h.append (Spelled.word "." (by decide))).append (p.spelled_identifier x.name)
  unfold selectColumn
  rw [String.toList_append, String.toList_append, String.toList_append]
  refine hname.append ?_
  split
  · exact .nil
  · next label _ =>
    rw [String.toList_append]
    exact (Spelled.word _ (by decide)).append (.of_quoted rfl label)

theorem spelled_join {j : Join} (halias : Spelled j.aliasName.toList)
    (hparent : Spelled j.parentAlias.toList) : Spelled (p.join j).toList := by
  have htable := (Spelled.word " LEFT JOIN " (by decide)).append (p.spelled_identifier j.table)
  have has := (htable.append (Spelled.word " AS " (by decide))).append halias
  have hon := (has.append (Spelled.word " ON " (by decide))).append halias
  have hkey := (hon.append (Spelled.word "." (by decide))).append (p.spelled_identifier j.key)
  have hequals := (hkey.append (Spelled.word " = " (by decide))).append hparent
  show Spelled (" LEFT JOIN " ++ p.identifier j.table ++ " AS " ++ j.aliasName ++ " ON " ++
    j.aliasName ++ "." ++ p.identifier j.key ++ " = " ++ j.parentAlias ++ "." ++
    p.identifier j.foreignKey).toList
  simp only [String.toList_append]
  exact (hequals.append (Spelled.word "." (by decide))).append (p.spelled_identifier j.foreignKey)

end Printer

theorem Dialect.spelled_numbered (clause : String) (n : Option Nat)
    (h : Spelled clause.toList) : Spelled (numbered clause n).toList := by
  have hblank : Spelled " ".toList := .word _ (by decide)
  cases n with
  | none => exact .nil
  | some n =>
    simp only [numbered, String.toList_append]
    exact ((hblank.append h).append hblank).append (Text.unsigned_nat n).spelled

/-- The parts of the end of a statement. Where an offset needs a limit before it, one is written for
it, and otherwise the limit is the one that is asked for, if any. -/
theorem Dialect.ending_cases (dialect : Dialect) (limit offset : Option Nat) (terminate : Bool) :
    ∃ limited, dialect.ending limit offset terminate =
        limited ++ numbered "OFFSET" offset ++ (if terminate then ";" else "") ∧
      (limited = " LIMIT -1" ∧ (dialect == .sqlite && offset.isSome) = true ∨
        limited = numbered "LIMIT" limit ∧
          (limit.isSome || (dialect == .sqlite && offset.isSome)) = limit.isSome) := by
  refine ⟨_, rfl, ?_⟩
  cases dialect with
  | postgres => exact .inr ⟨rfl, Bool.or_false _⟩
  | sqlite =>
    cases limit with
    | some n => exact .inr ⟨rfl, rfl⟩
    | none =>
      cases offset with
      | none => exact .inr ⟨rfl, rfl⟩
      | some n => exact .inl ⟨rfl, rfl⟩

/-- The number that stands for no limit is the only one with a sign. -/
theorem Dialect.spelled_ending (dialect : Dialect) (limit offset : Option Nat) (terminate : Bool) :
    Spelled (dialect.ending limit offset terminate).toList := by
  have hoffset : Spelled (numbered "OFFSET" offset).toList :=
    spelled_numbered _ _ (.word _ (by decide))
  have hend : Spelled (if terminate then ";" else "").toList := by
    cases terminate <;> exact .word _ (by decide)
  obtain ⟨limited, hending, hcases⟩ := dialect.ending_cases limit offset terminate
  have hlimited : Spelled limited.toList := by
    rcases hcases with ⟨rfl, -⟩ | ⟨rfl, -⟩
    · have hminus : Spelled (" LIMIT ".toList ++ ['-', '1']) :=
        (Spelled.word _ (by decide)).append (.sign rfl rfl .nil)
      exact hminus
    · exact spelled_numbered _ _ (.word _ (by decide))
  rw [hending, String.toList_append, String.toList_append]
  exact (hlimited.append hoffset).append hend

end Sql

end PredicateSql
