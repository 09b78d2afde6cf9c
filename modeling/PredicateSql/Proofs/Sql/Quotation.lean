import PredicateSql.Proofs.Sql.Parts
import PredicateSql.Proofs.Sql.Printer
import PredicateSql.Proofs.Text.Quotation

/-!
# What statements quote

* `Dialect.quotes`, `Printer.nameQuotes`, `Printer.termQuotes`, `Printer.queryQuotes`: the texts
  that stand between quotes in literals, names, terms and statements, in the order in which they are
  written. They are taken from the values and names themselves, and not from their printed forms.
* `Dialect.quoting_literal`, `Printer.quoting_identifier` and so on: the printed forms of literals,
  names and clauses quote these texts and nothing else.
* `Printer.mem_queryQuotes_of_hasPart`: every string in a query is among its quoted texts.
-/

namespace PredicateSql

open Text (Bare Quoting StartsBare isBare isQuote)

/-! ### Numbers -/

theorem Text.isBare_of_isDigit {c : Char} (h : c.isDigit = true) : isBare c = true := by
  have hne : c ≠ '\'' ∧ c ≠ '"' ∧ c ≠ ';' := by
    refine ⟨?_, ?_, ?_⟩ <;> rintro rfl <;> cases h
  simp [isBare, isQuote, hne]

/-- Numbers and dates have no quotes and no semicolons in them. -/
theorem Text.Numerals.bare {x : List Char} (h : Text.Numerals x) : Bare x := by
  have hother : ∀ c, ['-', '+', '.', ':', ' ', 'e'].contains c = true → isBare c = true := by
    intro c hc
    have hall : ['-', '+', '.', ':', ' ', 'e'].all isBare = true := by decide
    exact List.all_eq_true.1 hall c (List.contains_iff_mem.1 hc)
  intro c hc
  exact (Bool.or_eq_true_iff.1 (h c hc)).elim Text.isBare_of_isDigit (hother c)

/-- A double is written without quotes and semicolons. -/
theorem Binary64.bare_render (x : Float) : Bare (render x).toList := by
  rcases render_cases x with h | h | h | h
  · exact h ▸ Bare.word "NaN" (by decide)
  · exact h ▸ Bare.word "inf" (by decide)
  · exact h ▸ Bare.word "-inf" (by decide)
  · exact h.bare

namespace Sql

/-! ### Literals -/

/-- The text that a literal quotes: a string, a date, or the digits of a blob. -/
def Dialect.quotes (dialect : Dialect) : Value → List (Char × String)
  | .string s => [('\'', s)]
  | .date d => [('\'', d.render)]
  | .dateTime t => [('\'', t.render)]
  | .bytes b =>
    match dialect with
    | .postgres => [('\'', "\\x" ++ Text.hexOfBytes 'a' b)]
    | .sqlite => [('\'', Text.hexOfBytes 'A' b)]
  | _ => []

theorem Dialect.quoting_literal (dialect : Dialect) (v : Value) :
    Quoting (dialect.literal v).toList (dialect.quotes v) := by
  have hquoted : ∀ s : String, Quoting (Text.quoted '\'' s).toList [('\'', s)] :=
    Quoting.of_quoted rfl
  cases v with
  | null => exact .of_bare (.word "NULL" (by decide))
  | bool b => cases dialect <;> cases b <;> exact .of_bare (.word _ (by decide))
  | int i => exact .of_bare ((Text.numerals_int i.toInt).bare)
  | float x => exact .of_bare (Binary64.bare_render x)
  | string s => exact hquoted s
  | date d =>
    rw [literal_date]
    cases dialect with
    | postgres =>
      rw [String.toList_append]
      exact .after (.word _ (by decide)) (hquoted _)
    | sqlite => exact hquoted _
  | dateTime t =>
    rw [literal_dateTime]
    cases dialect with
    | postgres =>
      rw [String.toList_append]
      exact .after (.word _ (by decide)) (hquoted _)
    | sqlite => exact hquoted _
  | bytes b =>
    rw [literal_bytes]
    cases dialect with
    | postgres =>
      rw [String.toList_append]
      exact (hquoted _).before (.word _ (by decide))
    | sqlite =>
      rw [String.toList_append]
      exact .after (.word _ (by decide)) (hquoted _)
  | list | record => exact .nil

/-! ### Names -/

namespace Printer

variable (p : Printer)

/-- A name is quoted where the choice or the name asks for it. -/
def nameQuotes (name : String) : List (Char × String) :=
  if p.quoteIdentifiers || !isPlain name.toList || reservedNames.contains name then [('"', name)]
  else []

end Printer

theorem bare_of_isPlain {name : List Char} (h : isPlain name = true) : Bare name := by
  have hstart : ∀ c, isPlainStart c = true → isBare c = true := by
    intro c hc
    have hne : c ≠ '\'' ∧ c ≠ '"' ∧ c ≠ ';' := by
      refine ⟨?_, ?_, ?_⟩ <;> rintro rfl <;> cases hc
    simp [isBare, isQuote, hne]
  cases name with
  | nil => cases h
  | cons c rest =>
    rw [isPlain, Bool.and_eq_true, List.all_eq_true] at h
    refine List.forall_mem_cons.2 ⟨hstart c h.1, fun d hd => ?_⟩
    rcases Bool.or_eq_true_iff.1 (h.2 d hd) with hplain | hdigit
    · exact hstart d hplain
    · exact Text.isBare_of_isDigit hdigit

namespace Printer

variable (p : Printer)

theorem quoting_identifier (name : String) :
    Quoting (p.identifier name).toList (p.nameQuotes name) := by
  unfold identifier nameQuotes
  split
  · exact .of_quoted rfl name
  · next h =>
    have hplain : isPlain name.toList = true := by
      by_contra hname
      simp [hname] at h
    exact .of_bare (bare_of_isPlain hplain)

/-! ### Terms -/

mutual

/-- The texts that a term quotes, in the order in which they are written. -/
def termQuotes (p : Printer) : Term → List (Char × String)
  | .literal value => p.dialect.quotes value
  | .column _ name => p.nameQuotes name
  | .binary left _ right _ => p.termQuotes left ++ p.termQuotes right
  | .negative operand | .not operand | .isNull operand _ => p.termQuotes operand
  | .inList item list _ => p.termQuotes item ++ p.termsQuotes list
  | .like item pattern _ escaped =>
    p.termQuotes item ++ p.termQuotes pattern ++ if escaped then [('\'', "\\")] else []
  | .concat parts => p.termsQuotes parts
  | .conditional test ifTrue ifFalse =>
    p.termQuotes test ++ p.termQuotes ifTrue ++ p.termQuotes ifFalse
  | .call _ args => p.termsQuotes args

/-- The texts that some terms quote. -/
def termsQuotes (p : Printer) : List Term → List (Char × String)
  | [] => []
  | t :: rest => p.termQuotes t ++ p.termsQuotes rest

end

variable {p} {a x : Term}

theorem termsQuotes_eq_flatMap (list : List Term) :
    p.termsQuotes list = list.flatMap p.termQuotes := by
  induction list with
  | nil => rfl
  | cons t rest ih => rw [termsQuotes, ih, List.flatMap_cons]

/-- What the operands quote, the term quotes. -/
theorem termsQuotes_operands_subset (a : Term) : p.termsQuotes a.operands ⊆ p.termQuotes a := by
  cases a <;> simp [Term.operands, termQuotes, termsQuotes]

theorem termQuotes_subset_of_mem_operands (h : x ∈ a.operands) :
    p.termQuotes x ⊆ p.termQuotes a := by
  refine List.Subset.trans (fun quote hquote => ?_) (termsQuotes_operands_subset a)
  rw [termsQuotes_eq_flatMap]
  exact List.mem_flatMap.2 ⟨x, h, hquote⟩

theorem termQuotes_subset_of_isPartOf (h : x.IsPartOf a) : p.termQuotes x ⊆ p.termQuotes a := by
  induction h with
  | self => exact List.Subset.refl _
  | operand hb _ ih => exact List.Subset.trans ih (termQuotes_subset_of_mem_operands hb)

/-- It does not matter to what is quoted whether an operator stands between parentheses. -/
theorem termQuotes_unparenthesized (a : Term) :
    p.termQuotes a.unparenthesized = p.termQuotes a := by
  cases a <;> rfl

/-! ### Statements -/

variable (p)

/-- The texts that a projected column quotes. -/
def columnQuotes (c : SelectColumn) : List (Char × String) :=
  p.nameQuotes c.name ++ c.label.toList.map ('"', ·)

/-- The texts that a projection quotes. -/
def projectionQuotes : Projection → List (Char × String)
  | .columns columns => columns.flatMap p.columnQuotes
  | .count | .one => []

/-- The texts that a join quotes. -/
def joinQuotes (j : Join) : List (Char × String) :=
  p.nameQuotes j.table ++ p.nameQuotes j.key ++ p.nameQuotes j.foreignKey

/-- The texts that a statement quotes, in the order in which they are written. -/
def queryQuotes (q : Query) : List (Char × String) :=
  p.projectionQuotes q.projection ++ p.nameQuotes q.table ++ q.joins.flatMap p.joinQuotes ++
    q.filter.toList.flatMap p.termQuotes ++ q.order.flatMap fun o => p.termQuotes o.key

variable {p}

/-- Every string in a statement is among the texts that it quotes. -/
theorem mem_queryQuotes_of_hasPart {q : Query} {s : String} (h : q.HasPart (.text s)) :
    ('\'', s) ∈ p.queryQuotes q := by
  obtain ⟨a, ha, hpart⟩ := h
  have hself : ('\'', s) ∈ p.termQuotes (.text s) := List.mem_singleton_self _
  have hmem := termQuotes_subset_of_isPartOf hpart hself
  rcases List.mem_append.1 ha with hfilter | hkey
  · exact List.mem_append_left _ (List.mem_append_right _ (List.mem_flatMap.2 ⟨a, hfilter, hmem⟩))
  · obtain ⟨o, ho, rfl⟩ := List.mem_map.1 hkey
    exact List.mem_append_right _ (List.mem_flatMap.2 ⟨o, ho, hmem⟩)

theorem quoting_selectColumn {c : SelectColumn} (h : Bare c.table.toList) :
    Quoting (p.selectColumn c).toList (p.columnQuotes c) := by
  have hname := Quoting.after (h.append (.word "." (by decide))) (p.quoting_identifier c.name)
  unfold selectColumn columnQuotes
  rw [String.toList_append, String.toList_append, String.toList_append]
  cases c.label with
  | none =>
    have hnone : Quoting "".toList [] := .nil
    exact hname.append .nil hnone
  | some label =>
    rw [String.toList_append, ← List.append_assoc]
    exact hname.separated (.word _ (by decide)) (by decide) (.of_quoted rfl label)

theorem quoting_join {j : Join} (halias : Bare j.aliasName.toList)
    (hparent : Bare j.parentAlias.toList) :
    StartsBare (p.join j).toList ∧ Quoting (p.join j).toList (p.joinQuotes j) := by
  have hon : Bare (" AS ".toList ++ j.aliasName.toList ++ " ON ".toList ++ j.aliasName.toList ++
      ".".toList) :=
    (((((Bare.word " AS " (by decide)).append halias).append (.word " ON " (by decide))).append
      halias).append (.word "." (by decide)))
  have hequals : Bare (" = ".toList ++ j.parentAlias.toList ++ ".".toList) :=
    ((Bare.word " = " (by decide)).append hparent).append (.word "." (by decide))
  have htable := Quoting.after (.word " LEFT JOIN " (by decide)) (p.quoting_identifier j.table)
  have hkey := htable.separated hon (by simp) (p.quoting_identifier j.key)
  have hall := hkey.separated hequals (by simp) (p.quoting_identifier j.foreignKey)
  have htext : (p.join j).toList = (" LEFT JOIN " ++ p.identifier j.table ++ " AS " ++
    j.aliasName ++ " ON " ++ j.aliasName ++ "." ++ p.identifier j.key ++ " = " ++ j.parentAlias ++
    "." ++ p.identifier j.foreignKey).toList := rfl
  simp only [htext, joinQuotes, String.toList_append, List.append_assoc] at hall ⊢
  exact ⟨Bare.startsBare_append (.word _ (by decide)) (by decide), hall⟩

end Printer

/-- The end of a statement quotes nothing, and only the terminator is a semicolon. -/
theorem Dialect.bare_numbered {clause : String} (h : Bare clause.toList) (n : Option Nat) :
    Bare (numbered clause n).toList := by
  have hblank : Bare " ".toList := .word _ (by decide)
  cases n with
  | none => exact Bare.word "" (by decide)
  | some n =>
    simp only [numbered, String.toList_append]
    exact ((hblank.append h).append hblank).append (Text.numerals_nat n).bare

theorem Dialect.bare_ending (dialect : Dialect) (limit offset : Option Nat) :
    Bare (dialect.ending limit offset false).toList := by
  have hoffset : Bare (numbered "OFFSET" offset).toList := bare_numbered (.word _ (by decide)) offset
  obtain ⟨limited, hending, hcases⟩ := dialect.ending_cases limit offset false
  have hlimited : Bare limited.toList := by
    rcases hcases with ⟨rfl, -⟩ | ⟨rfl, -⟩
    · exact .word _ (by decide)
    · exact bare_numbered (.word _ (by decide)) limit
  rw [hending, String.toList_append, String.toList_append]
  exact (hlimited.append hoffset).append (.word _ (by decide))

theorem Dialect.ending_eq (dialect : Dialect) (limit offset : Option Nat) (terminate : Bool) :
    dialect.ending limit offset terminate =
      dialect.ending limit offset false ++ (if terminate then ";" else "") := by
  unfold ending
  simp

end Sql

end PredicateSql
