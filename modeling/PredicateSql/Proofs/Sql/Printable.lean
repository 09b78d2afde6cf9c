import PredicateSql.Proofs.Sql.Parts
import PredicateSql.Proofs.Sql.Printer

/-!
# What can be printed

* `Term.ForValues`: something holds of all values in a term. `Term.IsPrintable`,
  `Query.IsPrintable`: all values in a term or a statement have a literal form.
* `Printer.writeTerm_eq_some`: where all values in a term are written, so is the term.
  `Printer.isPrintable_of_printTerm?`: where a term is written, so are all values in it. Both
  inductions are on the term.
* `Printer.printTerm?_eq_some_iff`, `Printer.printQuery?_eq_some_iff`: there is a text exactly where
  every value has a literal form, and then it is the one of `Printer.term` or `Printer.query`.
-/

namespace PredicateSql.Sql

theorem Dialect.literal?_eq_some_iff (dialect : Dialect) {v : Value} {text : String} :
    dialect.literal? v = some text ↔ hasLiteral v = true ∧ text = dialect.literal v := by
  rw [literal?]
  split
  · next h => simp [h, eq_comm]
  · next h => simp [h]

/-! ### Values in terms -/

namespace Term

variable {P : Value → Prop} {a : Term}

/-- Something holds of every value in the term. -/
def ForValues (P : Value → Prop) (a : Term) : Prop :=
  ∀ v, (Term.literal v).IsPartOf a → P v

/-- Every value in the term has a literal form. -/
def IsPrintable (a : Term) : Prop :=
  a.ForValues fun v => hasLiteral v = true

theorem ForValues.operands (h : a.ForValues P) : ∀ b ∈ a.operands, b.ForValues P :=
  fun _ hb v hv => h v (.operand hb hv)

/-- In a term that is no literal, there are only the values in its operands. -/
theorem forValues_of_operands (ha : ∀ v, a ≠ .literal v) (h : ∀ b ∈ a.operands, b.ForValues P) :
    a.ForValues P := by
  intro v hv
  rcases isPartOf_iff.1 hv with rfl | ⟨b, hb, hv⟩
  · exact absurd rfl (ha v)
  · exact h b hb v hv

end Term

/-! ### Terms -/

namespace Printer

variable (p : Printer)

section

variable {f : Value → Option String} {g : Value → String}

mutual

/-- Where all values in a term are written, so is the term. -/
theorem writeTerm_eq_some : (a : Term) → (a.ForValues fun v => f v = some (g v)) →
    p.writeTerm f a = some (Id.run (p.writeTerm g a))
  | .literal v, h => h v .self
  | .column .., _ => by
    rw [writeTerm]
    rfl
  | .binary left _ right _, h => by
    obtain ⟨hleft, hright⟩ := List.forall_mem_cons.1 h.operands
    rw [List.forall_mem_singleton] at hright
    rw [writeTerm, writeTerm_eq_some left hleft, writeTerm_eq_some right hright]
    rfl
  | .negative operand, h | .not operand, h | .isNull operand _, h => by
    have hoperand := List.forall_mem_singleton.1 h.operands
    rw [writeTerm, writeTerm_eq_some operand hoperand]
    rfl
  | .inList item list _, h => by
    obtain ⟨hitem, hlist⟩ := List.forall_mem_cons.1 h.operands
    rw [writeTerm, writeTerm_eq_some item hitem, writeTerms_eq_some list hlist]
    rfl
  | .like item pattern _ _, h => by
    obtain ⟨hitem, hpattern⟩ := List.forall_mem_cons.1 h.operands
    rw [List.forall_mem_singleton] at hpattern
    rw [writeTerm, writeTerm_eq_some item hitem, writeTerm_eq_some pattern hpattern]
    rfl
  | .concat parts, h | .call _ parts, h => by
    rw [writeTerm, writeTerms_eq_some parts h.operands]
    rfl
  | .conditional test ifTrue ifFalse, h => by
    obtain ⟨htest, hbranches⟩ := List.forall_mem_cons.1 h.operands
    obtain ⟨hTrue, hFalse⟩ := List.forall_mem_cons.1 hbranches
    rw [List.forall_mem_singleton] at hFalse
    rw [writeTerm, writeTerm_eq_some test htest, writeTerm_eq_some ifTrue hTrue,
      writeTerm_eq_some ifFalse hFalse]
    rfl

theorem writeTerms_eq_some : (list : List Term) →
    (∀ a ∈ list, a.ForValues fun v => f v = some (g v)) →
    p.writeTerms f list = some (Id.run (p.writeTerms g list))
  | [], _ => by
    rw [writeTerms]
    rfl
  | a :: rest, h => by
    obtain ⟨ha, hrest⟩ := List.forall_mem_cons.1 h
    rw [writeTerms, writeTerm_eq_some a ha, writeTerms_eq_some rest hrest]
    rfl

end

end

mutual

/-- A term is written only as far as its values are. -/
theorem isPrintable_of_printTerm? : (a : Term) → {text : String} →
    p.printTerm? a = some text → a.IsPrintable
  | .literal v, _, h => by
    rintro v' (_ | ⟨hb, -⟩)
    · exact (p.dialect.literal?_eq_some_iff.1 h).1
    · cases hb
  | .column .., _, _ => Term.forValues_of_operands nofun nofun
  | .binary left _ right _, _, h => by
    rw [printTerm?, writeTerm] at h
    obtain ⟨_, hleft, h⟩ := Option.bind_eq_some_iff.1 h
    obtain ⟨_, hright, -⟩ := Option.bind_eq_some_iff.1 h
    refine Term.forValues_of_operands nofun (List.forall_mem_cons.2 ⟨?_, ?_⟩)
    · exact isPrintable_of_printTerm? left hleft
    · exact List.forall_mem_singleton.2 (isPrintable_of_printTerm? right hright)
  | .negative operand, _, h | .not operand, _, h | .isNull operand _, _, h => by
    rw [printTerm?, writeTerm] at h
    obtain ⟨_, hoperand, -⟩ := Option.bind_eq_some_iff.1 h
    refine Term.forValues_of_operands nofun (List.forall_mem_singleton.2 ?_)
    exact isPrintable_of_printTerm? operand hoperand
  | .inList item list _, _, h => by
    rw [printTerm?, writeTerm] at h
    obtain ⟨_, hitem, h⟩ := Option.bind_eq_some_iff.1 h
    obtain ⟨_, hlist, -⟩ := Option.bind_eq_some_iff.1 h
    refine Term.forValues_of_operands nofun (List.forall_mem_cons.2 ⟨?_, ?_⟩)
    · exact isPrintable_of_printTerm? item hitem
    · exact arePrintable_of_writeTerms list hlist
  | .like item pattern _ _, _, h => by
    rw [printTerm?, writeTerm] at h
    obtain ⟨_, hitem, h⟩ := Option.bind_eq_some_iff.1 h
    obtain ⟨_, hpattern, -⟩ := Option.bind_eq_some_iff.1 h
    refine Term.forValues_of_operands nofun (List.forall_mem_cons.2 ⟨?_, ?_⟩)
    · exact isPrintable_of_printTerm? item hitem
    · exact List.forall_mem_singleton.2 (isPrintable_of_printTerm? pattern hpattern)
  | .concat parts, _, h | .call _ parts, _, h => by
    rw [printTerm?, writeTerm] at h
    obtain ⟨_, hparts, -⟩ := Option.bind_eq_some_iff.1 h
    exact Term.forValues_of_operands nofun (arePrintable_of_writeTerms parts hparts)
  | .conditional test ifTrue ifFalse, _, h => by
    rw [printTerm?, writeTerm] at h
    obtain ⟨_, htest, h⟩ := Option.bind_eq_some_iff.1 h
    obtain ⟨_, hTrue, h⟩ := Option.bind_eq_some_iff.1 h
    obtain ⟨_, hFalse, -⟩ := Option.bind_eq_some_iff.1 h
    refine Term.forValues_of_operands nofun (List.forall_mem_cons.2 ⟨?_, ?_⟩)
    · exact isPrintable_of_printTerm? test htest
    · exact List.forall_mem_cons.2 ⟨isPrintable_of_printTerm? ifTrue hTrue,
        List.forall_mem_singleton.2 (isPrintable_of_printTerm? ifFalse hFalse)⟩

theorem arePrintable_of_writeTerms : (list : List Term) → {texts : List String} →
    p.writeTerms p.dialect.literal? list = some texts → ∀ a ∈ list, a.IsPrintable
  | [], _, _ => nofun
  | a :: rest, _, h => by
    rw [writeTerms] at h
    obtain ⟨_, ha, h⟩ := Option.bind_eq_some_iff.1 h
    obtain ⟨_, hrest, -⟩ := Option.bind_eq_some_iff.1 h
    exact List.forall_mem_cons.2
      ⟨isPrintable_of_printTerm? a ha, arePrintable_of_writeTerms rest hrest⟩

end

variable {p} {text : String}

theorem printTerm?_of_isPrintable {a : Term} (h : a.IsPrintable) :
    p.printTerm? a = some (p.term a) :=
  p.writeTerm_eq_some a fun v hv => if_pos (h v hv)

/-- A term has a text if and only if every value in it has a literal form. -/
theorem printTerm?_eq_some_iff {a : Term} :
    p.printTerm? a = some text ↔ a.IsPrintable ∧ text = p.term a := by
  constructor
  · intro h
    have hprintable := p.isPrintable_of_printTerm? a h
    exact ⟨hprintable, Option.some.inj (h.symm.trans (printTerm?_of_isPrintable hprintable))⟩
  · rintro ⟨hprintable, rfl⟩
    exact printTerm?_of_isPrintable hprintable

end Printer

/-! ### Statements -/

/-- Every value in the statement has a literal form. -/
def Query.IsPrintable (q : Query) : Prop :=
  ∀ v, q.HasPart (.literal v) → hasLiteral v = true

/-- Only the filter and the keys of the order have values in them. -/
theorem Query.isPrintable_iff {q : Query} : q.IsPrintable ↔
    (∀ a, q.filter = some a → a.IsPrintable) ∧ ∀ o ∈ q.order, o.key.IsPrintable := by
  have hterms : q.IsPrintable ↔ ∀ a ∈ q.terms, a.IsPrintable :=
    ⟨fun h a ha v hv => h v ⟨a, ha, hv⟩, fun h v ⟨a, ha, hv⟩ => h a ha v hv⟩
  rw [hterms, Query.terms, List.forall_mem_append]
  simp

/-- Where all items are written, so is the list of them. -/
theorem mapM_eq_some {α : Type} {f : α → Option String} {g : α → String} {items : List α}
    (h : ∀ x ∈ items, f x = some (g x)) : items.mapM f = some (items.map g) := by
  induction items with
  | nil => rfl
  | cons x rest ih =>
    rw [List.forall_mem_cons] at h
    rw [List.mapM_cons, h.1, ih h.2]
    rfl

theorem exists_of_mapM {α : Type} {f : α → Option String} {items : List α} {texts : List String}
    (h : items.mapM f = some texts) : ∀ x ∈ items, ∃ text, f x = some text := by
  induction items generalizing texts with
  | nil => exact nofun
  | cons x rest ih =>
    rw [List.mapM_cons] at h
    obtain ⟨text, hx, h⟩ := Option.bind_eq_some_iff.1 h
    obtain ⟨_, hrest, -⟩ := Option.bind_eq_some_iff.1 h
    exact List.forall_mem_cons.2 ⟨⟨text, hx⟩, ih hrest⟩

namespace Printer

variable {p : Printer} {q : Query} {text : String}

theorem printQuery?_of_isPrintable (h : q.IsPrintable) : p.printQuery? q = some (p.query q) := by
  obtain ⟨hfilter, horder⟩ := Query.isPrintable_iff.1 h
  have hterm : ∀ a : Term, a.IsPrintable → p.writeTerm p.dialect.literal? a = some (p.term a) :=
    fun _ ha => printTerm?_of_isPrintable ha
  have hwhere : p.writeFilter p.dialect.literal? q.filter =
      some (Id.run (p.writeFilter p.dialect.literal q.filter)) := by
    cases hq : q.filter with
    | none => rfl
    | some a =>
      rw [writeFilter, hterm a (hfilter a hq)]
      rfl
  have hkeys : q.order.mapM (p.writeOrderBy p.dialect.literal?) = some (q.order.map p.orderBy) := by
    refine mapM_eq_some fun o ho => ?_
    rw [writeOrderBy, hterm o.key (horder o ho)]
    rfl
  have hby : p.writeOrder p.dialect.literal? q.order =
      some (Id.run (p.writeOrder p.dialect.literal q.order)) := by
    have hrun : Id.run (q.order.mapM (p.writeOrderBy p.dialect.literal)) =
        q.order.map p.orderBy := List.idRun_mapM
    rw [writeOrder, writeOrder, hkeys]
    split
    · rfl
    · exact congrArg (fun keys => some (" ORDER BY " ++ ", ".intercalate keys)) hrun.symm
  rw [printQuery?, writeQuery, hwhere, hby]
  rfl

theorem isPrintable_of_printQuery? (h : p.printQuery? q = some text) : q.IsPrintable := by
  rw [printQuery?, writeQuery] at h
  obtain ⟨_, hfilter, h⟩ := Option.bind_eq_some_iff.1 h
  obtain ⟨_, horder, -⟩ := Option.bind_eq_some_iff.1 h
  refine Query.isPrintable_iff.2 ⟨fun a ha => ?_, fun o ho => ?_⟩
  · rw [ha, writeFilter] at hfilter
    obtain ⟨_, hterm, -⟩ := Option.bind_eq_some_iff.1 hfilter
    exact p.isPrintable_of_printTerm? a hterm
  · have hne : q.order.isEmpty = false := List.isEmpty_eq_false_iff.2 (List.ne_nil_of_mem ho)
    rw [writeOrder, hne] at horder
    obtain ⟨_, hkeys, -⟩ := Option.bind_eq_some_iff.1 horder
    obtain ⟨_, hkey⟩ := exists_of_mapM hkeys o ho
    obtain ⟨_, hterm, -⟩ := Option.bind_eq_some_iff.1 hkey
    exact p.isPrintable_of_printTerm? o.key hterm

/-- A statement has a text if and only if every value in it has a literal form. -/
theorem printQuery?_eq_some_iff :
    p.printQuery? q = some text ↔ q.IsPrintable ∧ text = p.query q := by
  constructor
  · intro h
    have hprintable := isPrintable_of_printQuery? h
    exact ⟨hprintable, Option.some.inj (h.symm.trans (printQuery?_of_isPrintable hprintable))⟩
  · rintro ⟨hprintable, rfl⟩
    exact printQuery?_of_isPrintable hprintable

end Printer

end PredicateSql.Sql
