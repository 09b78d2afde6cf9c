import Mathlib.Data.List.Infix
import PredicateSql.Text.Quoted

/-!
# Brackets and comments outside of quotes

How a reader of statements takes a text apart, from the left and without knowing its grammar.

* `outside`: a text without what stands within quotes.
* `Enclosed`: a text that ends with the bracket that closes its first character.
  `Balanced.enclosed`: a text with its own brackets paired is enclosed by two more.
* `OpensComment`: a text in which a comment starts. `Quiet` says when one does, in a form that is
  passed on from the parts of a text to the whole.
* `Spelled`: texts without brackets in which no comment can start. `Unsigned`: those of them that
  do not start with a sign.
-/

namespace PredicateSql.Text

/-! ### Quotes -/

/-- A character that texts are quoted with. -/
def isQuote (c : Char) : Bool :=
  c == '\'' || c == '"'

/-- A text without the characters within quotes, where the text itself starts outside of quotes or
within the given ones. The quotes stay. A doubled quote closes a quoted text and opens it again. -/
def outside : Option Char → List Char → List Char
  | _, [] => []
  | none, c :: rest => c :: outside (if isQuote c then some c else none) rest
  | some quote, c :: rest =>
    if c = quote then c :: outside none rest else outside (some quote) rest

/-- Every quote in the text is closed, so that what follows the text is read from the outside. -/
def Whole (text : List Char) : Prop :=
  ∀ rest, outside none (text ++ rest) = outside none text ++ outside none rest

variable {c quote : Char} {x y text : List Char}

theorem outside_cons (h : isQuote c = false) (rest : List Char) :
    outside none (c :: rest) = c :: outside none rest := by
  rw [outside, if_neg (by simp [h])]

theorem whole_nil : Whole [] :=
  fun _ => rfl

theorem Whole.append (hx : Whole x) (hy : Whole y) : Whole (x ++ y) := by
  intro rest
  rw [List.append_assoc, hx, hy, hx, List.append_assoc]

theorem Whole.cons (h : isQuote c = false) (hx : Whole x) : Whole (c :: x) := by
  intro rest
  rw [List.cons_append, outside_cons h, outside_cons h, hx, List.cons_append]

/-- Only quotes are left of the rest of a quoted text. -/
theorem outside_doubled (hquote : isQuote quote = true) (text rest : List Char) :
    outside (some quote) (doubled quote text ++ quote :: rest) =
      List.replicate (2 * text.count quote + 1) quote ++ outside none rest := by
  induction text with
  | nil => rw [doubled, List.nil_append, outside, if_pos rfl]; rfl
  | cons c text ih =>
    by_cases hc : c = quote
    · -- The first of the two quotes closes the text, and the second one opens it again.
      subst hc
      rw [doubled, if_pos rfl, List.cons_append, List.cons_append, outside, if_pos rfl, outside,
        if_pos hquote, ih, List.count_cons_self]
      have hcount : 2 * (text.count c + 1) + 1 = (2 * text.count c + 1) + 1 + 1 := by omega
      rw [hcount, List.replicate_succ (n := 2 * text.count c + 1 + 1),
        List.replicate_succ (n := 2 * text.count c + 1), List.cons_append, List.cons_append]
    · rw [doubled, if_neg hc, List.cons_append, outside, if_neg hc, ih, List.count_cons_of_ne hc]

/-- Only quotes are left of a quoted text. -/
theorem outside_quoted (hquote : isQuote quote = true) (s : String) (rest : List Char) :
    outside none ((quoted quote s).toList ++ rest) =
      List.replicate (2 * s.toList.count quote + 2) quote ++ outside none rest := by
  rw [quoted, String.toList_ofList, List.append_assoc, List.cons_append, outside, if_pos hquote,
    List.singleton_append, outside_doubled hquote, ← List.cons_append, ← List.replicate_succ]

theorem outside_quoted_self (hquote : isQuote quote = true) (s : String) :
    outside none (quoted quote s).toList =
      List.replicate (2 * s.toList.count quote + 2) quote := by
  simpa [outside] using outside_quoted hquote s []

theorem whole_quoted (hquote : isQuote quote = true) (s : String) :
    Whole (quoted quote s).toList := by
  intro rest
  rw [outside_quoted hquote, outside_quoted_self hquote]

/-! ### Brackets -/

/-- What follows the bracket that closes the innermost of one more than `depth` open ones; nothing
if there is no such bracket. -/
def closing : Nat → List Char → Option (List Char)
  | _, [] => none
  | depth, c :: rest =>
    if c = '(' then closing (depth + 1) rest
    else if c = ')' then
      match depth with
      | 0 => some rest
      | depth + 1 => closing depth rest
    else closing depth rest

theorem closing_opening (depth : Nat) (rest : List Char) :
    closing depth ('(' :: rest) = closing (depth + 1) rest := by
  simp [closing]

theorem closing_inner (depth : Nat) (rest : List Char) :
    closing (depth + 1) (')' :: rest) = closing depth rest := by
  simp [closing]

theorem closing_last (rest : List Char) : closing 0 (')' :: rest) = some rest := by
  simp [closing]

theorem closing_cons_of_ne (h : c ≠ '(') (h' : c ≠ ')') (depth : Nat) (rest : List Char) :
    closing depth (c :: rest) = closing depth rest := by
  simp [closing, h, h']

/-- What follows the bracket that closes the first character. -/
def afterFirst? : List Char → Option (List Char)
  | '(' :: rest => closing 0 rest
  | _ => none

/-- The first character is a bracket, and the last character is the one that closes it. -/
def Enclosed (text : List Char) : Prop :=
  afterFirst? (outside none text) = some []

instance (text : List Char) : Decidable (Enclosed text) :=
  inferInstanceAs (Decidable (_ = _))

/-- Every quote and every bracket of the text is closed within it, and no other one is. -/
structure Balanced (text : List Char) : Prop where
  whole : Whole text
  passed : ∀ depth rest, closing depth (outside none text ++ rest) = closing depth rest

namespace Balanced

theorem nil : Balanced [] :=
  ⟨whole_nil, fun _ _ => rfl⟩

theorem append (hx : Balanced x) (hy : Balanced y) : Balanced (x ++ y) := by
  refine ⟨hx.whole.append hy.whole, fun depth rest => ?_⟩
  rw [hx.whole, List.append_assoc, hx.passed, hy.passed]

theorem cons (hx : Balanced x) (hc : isQuote c = false) (hopening : c ≠ '(')
    (hclosing : c ≠ ')') : Balanced (c :: x) := by
  refine ⟨hx.whole.cons hc, fun depth rest => ?_⟩
  rw [outside_cons hc, List.cons_append, closing_cons_of_ne hopening hclosing, hx.passed]

/-- What follows a balanced text between brackets. -/
theorem closing_cons (hx : Balanced x) (depth : Nat) (rest : List Char) :
    closing depth ('(' :: (outside none x ++ ')' :: rest)) = closing depth rest := by
  rw [closing_opening, hx.passed, closing_inner]

theorem outside_between (hx : Balanced x) (rest : List Char) :
    outside none ('(' :: x ++ ')' :: rest) =
      '(' :: (outside none x ++ ')' :: outside none rest) := by
  rw [List.cons_append, outside_cons rfl, hx.whole, outside_cons rfl]

/-- A balanced text stays balanced between brackets. -/
theorem between (hx : Balanced x) : Balanced ('(' :: x ++ [')']) := by
  have hclose : Whole [')'] := whole_nil.cons rfl
  refine ⟨(hx.whole.cons rfl).append hclose, fun depth rest => ?_⟩
  rw [hx.outside_between, List.cons_append, List.append_assoc]
  exact hx.closing_cons depth rest

/-- A balanced text between brackets is enclosed by them. -/
theorem enclosed (hx : Balanced x) : Enclosed ('(' :: x ++ [')']) := by
  rw [Enclosed, hx.outside_between, afterFirst?, hx.passed, closing_last]
  rfl

/-- A balanced text between brackets is not enclosed any more if something follows. -/
theorem not_enclosed (hx : Balanced x) (c : Char) (rest : List Char) :
    ¬ Enclosed ('(' :: x ++ ')' :: c :: rest) := by
  rw [Enclosed, hx.outside_between, afterFirst?, hx.passed, closing_last]
  simp [outside]

example : Enclosed "(a = ')' AND (b))".toList := by decide

example : ¬ Enclosed "(a) AND (b)".toList := by decide

end Balanced

/-! ### Comments -/

/-- Outside of quotes, the text holds a sign that a comment starts with. -/
def OpensComment (text : List Char) : Prop :=
  ['-', '-'] <:+: outside none text ∨ ['/', '*'] <:+: outside none text

instance (text : List Char) : Decidable (OpensComment text) :=
  inferInstanceAs (Decidable (_ ∨ _))

/-- Two characters stand side by side in one of two texts, if the first one does not end at the
first of the two. -/
theorem pair_infix_append {a b : Char} (h : x.getLast? ≠ some a) :
    [a, b] <:+: x ++ y ↔ [a, b] <:+: x ∨ [a, b] <:+: y := by
  rw [List.infix_append_iff_ne_nil]
  constructor
  · rintro (hx | hy | ⟨l, l', hl, hl', heq, hsuffix, -⟩)
    · exact .inl hx
    · exact .inr hy
    · -- The pair would have to be split into its two characters.
      obtain ⟨d, l, rfl⟩ := List.exists_cons_of_ne_nil hl
      obtain ⟨rfl, heq⟩ := List.cons.inj heq
      cases l with
      | nil =>
        obtain ⟨before, rfl⟩ := hsuffix
        exact absurd List.getLast?_concat h
      | cons d' l => simp_all
  · rintro (hx | hy)
    · exact .inl hx
    · exact .inr (.inl hy)

/-- A comment starts in the text if and only if `comment` holds, and none can start at its end. -/
structure Quiet (text : List Char) (comment : Prop) : Prop where
  whole : Whole text
  opens : OpensComment text ↔ comment
  minus : (outside none text).getLast? ≠ some '-'
  slash : (outside none text).getLast? ≠ some '/'

namespace Quiet

variable {p q : Prop}

theorem nil : Quiet [] False := by
  refine ⟨whole_nil, ?_, by simp [outside], by simp [outside]⟩
  simp [OpensComment, outside]

theorem congr (hx : Quiet x p) (h : p ↔ q) : Quiet x q :=
  ⟨hx.whole, hx.opens.trans h, hx.minus, hx.slash⟩

theorem append (hx : Quiet x p) (hy : Quiet y q) : Quiet (x ++ y) (p ∨ q) := by
  have hopens : OpensComment (x ++ y) ↔ OpensComment x ∨ OpensComment y := by
    rw [OpensComment, hx.whole, pair_infix_append hx.minus, pair_infix_append hx.slash,
      OpensComment, OpensComment, or_or_or_comm]
  -- The second text may be empty, so both must not end in half of a sign.
  have hlast : ∀ c : Char, (outside none x).getLast? ≠ some c →
      (outside none y).getLast? ≠ some c → (outside none (x ++ y)).getLast? ≠ some c := by
    intro c hc hc'
    rw [hx.whole, List.getLast?_append, Ne, Option.or_eq_some_iff]
    exact not_or.2 ⟨hc', fun h => hc h.2⟩
  exact ⟨hx.whole.append hy.whole, hopens.trans (or_congr hx.opens hy.opens),
    hlast _ hx.minus hy.minus, hlast _ hx.slash hy.slash⟩

/-- One character that is neither a quote nor the first half of a sign. -/
theorem singleton (hc : isQuote c = false) (hminus : c ≠ '-') (hslash : c ≠ '/') :
    Quiet [c] False := by
  have hself : outside none [c] = [c] := outside_cons hc []
  refine ⟨whole_nil.cons hc, ?_, by simpa [hself] using hminus, by simpa [hself] using hslash⟩
  simp [OpensComment, hself, List.infix_cons_iff]

theorem between (hx : Quiet x p) : Quiet ('(' :: x ++ [')']) p := by
  have hopening : Quiet ['('] False := singleton rfl (by decide) (by decide)
  have hclosing : Quiet [')'] False := singleton rfl (by decide) (by decide)
  exact ((hopening.append hx).append hclosing).congr (by simp)

/-- Another character in front, which may be the first half of a sign. -/
theorem cons (hx : Quiet x p) (hc : isQuote c = false) (hne : x ≠ []) :
    Quiet (c :: x) ((c = '-' ∧ x.head? = some '-') ∨ (c = '/' ∧ x.head? = some '*') ∨ p) := by
  obtain ⟨d, rest, rfl⟩ := List.exists_cons_of_ne_nil hne
  -- A quote is kept as well, so the first character is the same outside of quotes.
  obtain ⟨rest', hrest⟩ : ∃ rest', outside none (d :: rest) = d :: rest' := ⟨_, rfl⟩
  have hpair : ∀ a b : Char, [a, b] <:+: c :: d :: rest' ↔
      (c = a ∧ d = b) ∨ [a, b] <:+: d :: rest' := by
    intro a b
    simp [List.infix_cons_iff, eq_comm]
  have hopens : OpensComment (c :: d :: rest) ↔
      (c = '-' ∧ d = '-') ∨ (c = '/' ∧ d = '*') ∨ OpensComment (d :: rest) := by
    rw [OpensComment, OpensComment, outside_cons hc, hrest, hpair, hpair]
    tauto
  have hlast : (outside none (c :: d :: rest)).getLast? = (outside none (d :: rest)).getLast? := by
    rw [outside_cons hc, hrest, List.getLast?_cons_cons]
  refine ⟨hx.whole.cons hc, ?_, hlast ▸ hx.minus, hlast ▸ hx.slash⟩
  simpa [hx.opens] using hopens

theorem quoted (hquote : isQuote quote = true) (s : String) :
    Quiet (Text.quoted quote s).toList False := by
  have hne : quote ≠ '-' ∧ quote ≠ '/' := by
    constructor <;> rintro rfl <;> cases hquote
  -- Nothing but quotes is left of a quoted text.
  have hpair : ∀ a b : Char, quote ≠ a →
      ¬ [a, b] <:+: outside none (Text.quoted quote s).toList := by
    intro a b ha hboth
    rw [outside_quoted_self hquote] at hboth
    exact ha (List.eq_of_mem_replicate (hboth.subset List.mem_cons_self)).symm
  have hlast : (outside none (Text.quoted quote s).toList).getLast? = some quote := by
    rw [outside_quoted_self hquote]
    simp [List.getLast?_replicate]
  refine ⟨whole_quoted hquote s, ?_, ?_, ?_⟩
  · exact iff_false_intro (not_or.2 ⟨hpair _ _ hne.1, hpair _ _ hne.2⟩)
  · rw [hlast]
    exact fun h => hne.1 (Option.some.inj h)
  · rw [hlast]
    exact fun h => hne.2 (Option.some.inj h)

end Quiet

/-! ### Texts without brackets -/

/-- The characters that a reader looks for: quotes, brackets and the signs of comments. -/
def specials : List Char :=
  ['\'', '"', '(', ')', '-', '/', '*']

/-- A character that a reader passes over. -/
def isInert (c : Char) : Bool :=
  !specials.contains c

/-- A character that is half of a sign that a comment starts with. -/
def isSign (c : Char) : Bool :=
  ['-', '/', '*'].contains c

/-- A property that no special character has makes a character inert. -/
theorem isInert_of_any {p : Char → Bool} (hp : specials.any p = false) (h : p c = true) :
    isInert c = true := by
  rw [isInert, Bool.not_eq_true', List.contains_eq_mem, decide_eq_false_iff_not]
  intro hc
  exact List.any_eq_false.1 hp c hc h

theorem isQuote_of_isInert (h : isInert c = true) : isQuote c = false := by
  simp_all [isInert, specials, isQuote]

theorem isQuote_of_isSign (h : isSign c = true) : isQuote c = false := by
  have hsigns : c = '-' ∨ c = '/' ∨ c = '*' := by simpa [isSign] using h
  rcases hsigns with rfl | rfl | rfl <;> rfl

/-- Texts of quoted texts and other characters, with no brackets and no two signs in a row. -/
inductive Spelled : List Char → Prop
  | nil : Spelled []
  | inert {c : Char} {rest : List Char} (hc : isInert c = true) (h : Spelled rest) :
    Spelled (c :: rest)
  | sign {c d : Char} {rest : List Char} (hc : isSign c = true) (hd : isInert d = true)
    (h : Spelled rest) : Spelled (c :: d :: rest)
  | quoted {quote : Char} {s : String} {rest : List Char} (hquote : isQuote quote = true)
    (h : Spelled rest) : Spelled ((quoted quote s).toList ++ rest)

namespace Spelled

theorem append (hx : Spelled x) (hy : Spelled y) : Spelled (x ++ y) := by
  induction hx with
  | nil => exact hy
  | inert hc _ ih => exact .inert hc ih
  | sign hc hd _ ih => exact .sign hc hd ih
  | quoted hquote _ ih =>
    rw [List.append_assoc]
    exact .quoted hquote ih

theorem of_inert (h : ∀ c ∈ x, isInert c = true) : Spelled x := by
  induction x with
  | nil => exact .nil
  | cons c rest ih =>
    rw [List.forall_mem_cons] at h
    exact .inert h.1 (ih h.2)

theorem of_quoted (hquote : isQuote quote = true) (s : String) :
    Spelled (Text.quoted quote s).toList := by
  have h := Spelled.quoted (s := s) hquote .nil
  rwa [List.append_nil] at h

theorem flatMap {α : Type} {f : α → List Char} {items : List α}
    (h : ∀ a ∈ items, Spelled (f a)) : Spelled (items.flatMap f) := by
  induction items with
  | nil => exact .nil
  | cons a rest ih =>
    rw [List.forall_mem_cons] at h
    exact h.1.append (ih h.2)

/-- There are no brackets in the text. -/
theorem balanced (h : Spelled x) : Balanced x := by
  have hinert : ∀ {c rest}, isInert c = true → Balanced rest → Balanced (c :: rest) := by
    intro c rest hc h
    refine h.cons (isQuote_of_isInert hc) ?_ ?_ <;> rintro rfl <;> cases hc
  induction h with
  | nil => exact .nil
  | inert hc _ ih => exact hinert hc ih
  | sign hc hd _ ih =>
    refine (hinert hd ih).cons (isQuote_of_isSign hc) ?_ ?_ <;> rintro rfl <;> cases hc
  | @quoted quote s rest hquote _ ih =>
    have hne : quote ≠ '(' ∧ quote ≠ ')' := by
      constructor <;> rintro rfl <;> cases hquote
    refine Balanced.append ⟨whole_quoted hquote s, fun depth more => ?_⟩ ih
    rw [outside_quoted_self hquote]
    -- A reader of brackets passes over the quotes that are left.
    generalize 2 * s.toList.count quote + 2 = n
    induction n with
    | zero => rfl
    | succ n ih' =>
      rw [List.replicate_succ, List.cons_append, closing_cons_of_ne hne.1 hne.2, ih']

/-- No comment starts in the text. -/
theorem quiet (h : Spelled x) : Quiet x False := by
  have hinert : ∀ {c rest}, isInert c = true → Quiet rest False → Quiet (c :: rest) False := by
    intro c rest hc h
    have hsingle : Quiet [c] False := by
      refine .singleton (isQuote_of_isInert hc) ?_ ?_ <;> rintro rfl <;> cases hc
    exact (hsingle.append h).congr (or_self_iff)
  induction h with
  | nil => exact .nil
  | inert hc _ ih => exact hinert hc ih
  | @sign c d rest hc hd _ ih =>
    -- The second half of a sign would have to be special as well.
    have hne : d ≠ '-' ∧ d ≠ '*' := by
      constructor <;> rintro rfl <;> cases hd
    refine ((hinert hd ih).cons (isQuote_of_isSign hc) (List.cons_ne_nil _ _)).congr ?_
    simp [hne]
  | quoted hquote _ ih => exact ((Quiet.quoted hquote _).append ih).congr (or_self_iff)

end Spelled

/-- A spelled text before which a sign may stand. -/
def Unsigned (text : List Char) : Prop :=
  ∃ c rest, text = c :: rest ∧ isInert c = true ∧ Spelled rest

namespace Unsigned

theorem of_inert (hne : x ≠ []) (h : ∀ c ∈ x, isInert c = true) : Unsigned x := by
  obtain ⟨c, rest, rfl⟩ := List.exists_cons_of_ne_nil hne
  rw [List.forall_mem_cons] at h
  exact ⟨c, rest, rfl, h.1, .of_inert h.2⟩

theorem append (hx : Unsigned x) (hy : Spelled y) : Unsigned (x ++ y) := by
  obtain ⟨c, rest, rfl, hc, hrest⟩ := hx
  exact ⟨c, rest ++ y, rfl, hc, hrest.append hy⟩

theorem spelled (hx : Unsigned x) : Spelled x := by
  obtain ⟨c, rest, rfl, hc, hrest⟩ := hx
  exact .inert hc hrest

theorem negated (hx : Unsigned x) : Spelled ('-' :: x) := by
  obtain ⟨c, rest, rfl, hc, hrest⟩ := hx
  exact .sign rfl hc hrest

theorem ne_nil (hx : Unsigned x) : x ≠ [] := by
  obtain ⟨c, rest, rfl, -⟩ := hx
  exact List.cons_ne_nil c rest

theorem head?_ne (hx : Unsigned x) : x.head? ≠ some '-' := by
  obtain ⟨c, rest, rfl, hc, -⟩ := hx
  intro h
  obtain rfl := Option.some.inj h
  cases hc

end Unsigned

/-! ### Fixed words -/

theorem Spelled.word (s : String) (h : s.toList.all isInert = true) : Spelled s.toList :=
  .of_inert (List.all_eq_true.1 h)

theorem Unsigned.word (s : String) (hne : s.toList.isEmpty = false)
    (h : s.toList.all isInert = true) : Unsigned s.toList :=
  .of_inert (List.isEmpty_eq_false_iff.1 hne) (List.all_eq_true.1 h)

theorem Balanced.word (s : String) (h : s.toList.all isInert = true) : Balanced s.toList :=
  (Spelled.word s h).balanced

theorem Quiet.word (s : String) (h : s.toList.all isInert = true) : Quiet s.toList False :=
  (Spelled.word s h).quiet

/-! ### Lists of texts -/

variable {α : Type} {separator : List Char}

theorem Balanced.intercalate {texts : List (List Char)} (hseparator : Spelled separator)
    (h : ∀ x ∈ texts, Balanced x) : Balanced (separator.intercalate texts) := by
  induction texts with
  | nil => exact .nil
  | cons x rest ih =>
    rw [List.forall_mem_cons] at h
    cases rest with
    | nil => simpa using h.1
    | cons y rest =>
      rw [List.intercalate_cons_cons]
      exact (h.1.append hseparator.balanced).append (ih h.2)

/-- In a list of texts, a comment starts if and only if one starts in one of the texts. -/
theorem Quiet.intercalate {f : α → List Char} {p : α → Prop} {items : List α}
    (hseparator : Spelled separator) (h : ∀ a ∈ items, Quiet (f a) (p a)) :
    Quiet (separator.intercalate (items.map f)) (∃ a ∈ items, p a) := by
  induction items with
  | nil => exact Quiet.nil.congr (by simp)
  | cons a rest ih =>
    rw [List.forall_mem_cons] at h
    cases rest with
    | nil => simpa using h.1
    | cons b rest =>
      rw [List.map_cons, List.map_cons, List.intercalate_cons_cons, ← List.map_cons]
      exact ((h.1.append hseparator.quiet).append (ih h.2)).congr (by simp)

end PredicateSql.Text
