import PredicateSql.Proofs.Text.Scanning

/-!
# Words outside of quotes

* `words`: the words of a text, which are its longest runs of letters, digits and underscores.
* `Finds`: which words outside of quotes a text has, among those that are looked for. It is passed
  on from the parts of a text to the whole where no word of one part runs into the next one
  (`Finds.append`, `Finds.separated`).
-/

namespace PredicateSql.Text

/-! ### Words -/

/-- A character of words. -/
def isWordChar (c : Char) : Bool :=
  c.isAlphanum || c == '_'

/-- The words of a text. -/
def words (text : List Char) : List (List Char) :=
  (text.splitOnP (!isWordChar ·)).filter (!·.isEmpty)

example : words "a.b_1, (c)".toList = ["a".toList, "b_1".toList, "c".toList] := by decide

/-- No word goes on from before the text. -/
def StartsApart (text : List Char) : Prop :=
  ∀ c ∈ text.head?, isWordChar c = false

/-- No word goes on after the text. -/
def EndsApart (text : List Char) : Prop :=
  ∀ c ∈ text.getLast?, isWordChar c = false

instance (text : List Char) : Decidable (StartsApart text) :=
  decidable_of_iff (text.head?.all (!isWordChar ·) = true) (by simp [StartsApart, Option.all_eq_true])

instance (text : List Char) : Decidable (EndsApart text) :=
  decidable_of_iff (text.getLast?.all (!isWordChar ·) = true) (by simp [EndsApart, Option.all_eq_true])

variable {c quote : Char} {x y text : List Char}

theorem words_nil : words [] = [] := rfl

/-- Another character ends the word before it. -/
theorem words_append_cons (hc : isWordChar c = false) (x y : List Char) :
    words (x ++ c :: y) = words x ++ words y := by
  rw [words, List.splitOnP_append_cons x y (by simp [hc]), List.filter_append]
  rfl

theorem words_cons (hc : isWordChar c = false) (y : List Char) : words (c :: y) = words y :=
  words_append_cons hc [] y

theorem words_append (h : EndsApart x ∨ StartsApart y) : words (x ++ y) = words x ++ words y := by
  rcases h with hx | hy
  · rcases List.eq_nil_or_concat' x with rfl | ⟨before, c, rfl⟩
    · rfl
    · have hc : isWordChar c = false := hx c List.getLast?_concat
      rw [List.append_assoc, List.singleton_append, words_append_cons hc, words_append_cons hc,
        words_nil, List.append_nil]
  · rcases y with _ | ⟨c, rest⟩
    · rw [List.append_nil, words_nil, List.append_nil]
    · have hc : isWordChar c = false := hy c rfl
      rw [words_append_cons hc, words_cons hc]

/-- A text of nothing but such characters is one word. -/
theorem words_eq_singleton (hne : x ≠ []) (h : ∀ c ∈ x, isWordChar c = true) : words x = [x] := by
  have hsplit : x.splitOnP (!isWordChar ·) = [x] :=
    List.splitOnP_eq_singleton fun c hc => by simp [h c hc]
  rw [words, hsplit, List.filter_singleton, List.isEmpty_eq_false_iff.2 hne]
  rfl

/-- The characters of a word are among those of the text. -/
theorem subset_of_mem_words {word : List Char} (h : word ∈ words x) : word ⊆ x := by
  replace h : word ∈ x.splitOnP (!isWordChar ·) := (List.mem_filter.1 h).1
  induction x generalizing word with
  | nil =>
    obtain rfl : word = [] := by simpa using h
    exact List.Subset.refl _
  | cons c x ih =>
    rw [List.splitOnP_cons_eq_if_modifyHead] at h
    split at h
    · rcases List.mem_cons.1 h with rfl | h
      · exact List.nil_subset _
      · exact List.subset_cons_of_subset c (ih h)
    · cases hsplit : x.splitOnP (!isWordChar ·) with
      | nil => exact absurd hsplit (List.splitOnP_ne_nil _ x)
      | cons first more =>
        -- The character belongs to the first of the words that the rest is made of.
        rw [hsplit] at ih
        rw [hsplit, List.modifyHead_cons] at h
        rcases List.mem_cons.1 h with rfl | h
        · exact List.cons_subset_cons c (ih List.mem_cons_self)
        · exact List.subset_cons_of_subset c (ih (List.mem_cons_of_mem _ h))

/-! ### Words that are looked for -/

/-- A text that keeps the words on its two sides apart. -/
def Separates (text : List Char) : Prop :=
  text ≠ [] ∧ StartsApart text ∧ EndsApart (outside none text)

instance (text : List Char) : Decidable (Separates text) :=
  decidable_of_iff (text.isEmpty = false ∧ StartsApart text ∧ EndsApart (outside none text))
    (by simp [Separates])

theorem StartsApart.nil : StartsApart [] := by
  intro c hc
  cases hc

theorem startsApart_cons (h : isWordChar c = false) : StartsApart (c :: y) := by
  rintro _ ⟨⟩
  exact h

theorem StartsApart.append (hx : StartsApart x) (hy : StartsApart y) : StartsApart (x ++ y) := by
  cases x with
  | nil => exact hy
  | cons c x => exact hx

/-- Whatever follows a text that is not empty does not start the whole. -/
theorem StartsApart.append_of_ne_nil (h : StartsApart x) (hne : x ≠ []) :
    StartsApart (x ++ y) := by
  obtain ⟨c, x, rfl⟩ := List.exists_cons_of_ne_nil hne
  exact h

/-- A quote is no character of words. -/
theorem isWordChar_of_isQuote (h : isQuote c = true) : isWordChar c = false := by
  rcases Bool.or_eq_true_iff.1 h with h | h <;> rw [beq_iff_eq.1 h] <;> decide

theorem startsApart_quoted (hquote : isQuote quote = true) (s : String) :
    StartsApart (quoted quote s).toList := by
  rw [quoted, String.toList_ofList]
  exact startsApart_cons (isWordChar_of_isQuote hquote)

variable {α : Type} {pick : List Char → Option α} {found found' middle : List α}

/-- Every quote in the text is closed, and of the words outside of quotes, those that are looked for
are `found`, in their order. -/
structure Finds (pick : List Char → Option α) (text : List Char) (found : List α) : Prop where
  whole : Whole text
  picked : (words (outside none text)).filterMap pick = found

namespace Finds

theorem nil : Finds pick [] [] :=
  ⟨whole_nil, rfl⟩

theorem congr (h : Finds pick x found) (heq : found = found') : Finds pick x found' :=
  heq ▸ h

/-- A text without quotes. -/
theorem of_unquoted (h : ∀ c ∈ x, isQuote c = false) (hfound : (words x).filterMap pick = found) :
    Finds pick x found := by
  have houtside : ∀ rest, outside none (x ++ rest) = x ++ outside none rest := by
    intro rest
    clear hfound
    induction x with
    | nil => rfl
    | cons c x ih =>
      obtain ⟨hc, hx⟩ := List.forall_mem_cons.1 h
      rw [List.cons_append, outside_cons hc, ih hx, List.cons_append]
  have hself : outside none x = x := by
    have hnil := houtside []
    rwa [List.append_nil, outside, List.append_nil] at hnil
  exact ⟨fun rest => by rw [houtside, hself], by rw [hself, hfound]⟩

/-- A fixed text. -/
theorem word (s : String) (h : s.toList.all (!isQuote ·) = true)
    (hfound : (words s.toList).filterMap pick = found) : Finds pick s.toList found :=
  of_unquoted (fun c hc => by simpa using List.all_eq_true.1 h c hc) hfound

/-- There are no words in quoted texts. -/
theorem quoted (hquote : isQuote quote = true) (s : String) :
    Finds pick (Text.quoted quote s).toList [] := by
  have hnone : ∀ n, words (List.replicate n quote) = [] := by
    intro n
    induction n with
    | zero => rfl
    | succ n ih => rw [List.replicate_succ, words_cons (isWordChar_of_isQuote hquote), ih]
  refine ⟨whole_quoted hquote s, ?_⟩
  rw [outside_quoted_self hquote, hnone]
  rfl

theorem append (hx : Finds pick x found)
    (h : EndsApart (outside none x) ∨ StartsApart y) (hy : Finds pick y found') :
    Finds pick (x ++ y) (found ++ found') := by
  have hapart : EndsApart (outside none x) ∨ StartsApart (outside none y) := by
    cases y <;> exact h
  refine ⟨hx.whole.append hy.whole, ?_⟩
  rw [hx.whole, words_append hapart, List.filterMap_append, hx.picked, hy.picked]

/-- A text behind, which no word goes on into. -/
theorem before (hx : Finds pick x found) (h : StartsApart y) (hy : Finds pick y found') :
    Finds pick (x ++ y) (found ++ found') :=
  hx.append (.inr h) hy

/-- A text in front, which no word goes on from. -/
theorem after (hx : Finds pick x found) (h : EndsApart (outside none x))
    (hy : Finds pick y found') : Finds pick (x ++ y) (found ++ found') :=
  hx.append (.inl h) hy

/-- Two texts with one between them that keeps their words apart. -/
theorem separated (hx : Finds pick x found) (hmiddle : Finds pick text middle)
    (h : Separates text) (hy : Finds pick y found') :
    Finds pick (x ++ text ++ y) (found ++ middle ++ found') := by
  obtain ⟨hne, hstarts, hends⟩ := h
  rw [List.append_assoc, List.append_assoc]
  exact hx.before (hstarts.append_of_ne_nil hne) (hmiddle.after hends hy)

theorem between (h : Finds pick x found) : Finds pick ('(' :: x ++ [')']) found := by
  have hopening : Finds pick "(".toList [] := word _ (by decide) rfl
  have hclosing : Finds pick ")".toList [] := word _ (by decide) rfl
  exact ((hopening.after (by decide) h).before (by decide) hclosing).congr (List.append_nil found)

/-- A list of texts, with one between them that has none of the words. -/
theorem intercalate {β : Type} {f : β → List Char} {g : β → List α} {items : List β}
    (hnone : Finds pick text []) (h : Separates text)
    (heach : ∀ a ∈ items, Finds pick (f a) (g a)) :
    Finds pick (text.intercalate (items.map f)) (items.flatMap g) := by
  induction items with
  | nil => exact .nil
  | cons a rest ih =>
    obtain ⟨ha, hrest⟩ := List.forall_mem_cons.1 heach
    cases rest with
    | nil => simpa using ha
    | cons b rest =>
      have hall := ha.separated hnone h (ih hrest)
      rw [List.map_cons, List.map_cons, List.intercalate_cons_cons, ← List.map_cons,
        List.flatMap_cons]
      exact hall.congr (by rw [List.append_nil])

/-- Texts one after the other, none of which a word goes on into. -/
theorem flatMap {β : Type} {f : β → List Char} {g : β → List α} {items : List β}
    (h : ∀ a ∈ items, StartsApart (f a) ∧ Finds pick (f a) (g a)) :
    StartsApart (items.flatMap f) ∧ Finds pick (items.flatMap f) (items.flatMap g) := by
  induction items with
  | nil => exact ⟨.nil, .nil⟩
  | cons a rest ih =>
    obtain ⟨⟨hstart, ha⟩, hrest⟩ := List.forall_mem_cons.1 h
    obtain ⟨hstartRest, hrest⟩ := ih hrest
    exact ⟨hstart.append hstartRest, ha.before hstartRest hrest⟩

end Finds

end PredicateSql.Text
