import PredicateSql.Proofs.Text.Scanning

/-!
# Reading quoted texts back

How a reader takes the quoted texts out of a statement, from the left. Between quotes, two quotes in
a row stand for one, and no other character means anything but itself.

* `read?`: the pieces of a text, which are the quoted texts and the characters between them; nothing
  if the text ends between quotes.
* `Quoting`: texts that are written piece by piece, so that no quoted text runs into the next one.
  `Quoting.read`: they are read back as they were written.
-/

namespace PredicateSql.Text

/-! ### Readers -/

/-- A piece of a text: a character outside of quotes, or a quoted text as it was before its quotes
were doubled. -/
inductive Piece where
  | plain (c : Char)
  | quoted (quote : Char) (text : String)
  deriving DecidableEq, Repr

/-- A quoted text with its quotes. -/
def Piece.quoted? : Piece → Option (Char × String)
  | .plain _ => none
  | .quoted quote text => some (quote, text)

/-- Where a reader stands, with what it has read of a quoted text. -/
inductive Position where
  | outside
  | within (quote : Char) (text : List Char)
  /-- The last character was a quote. It ends the text, unless another one follows. -/
  | after (quote : Char) (text : List Char)
  deriving DecidableEq, Repr

namespace Position

/-- A character outside of quotes: the next position, and the piece that is complete. -/
def opened (c : Char) : Position × List Piece :=
  if isQuote c then (.within c [], []) else (.outside, [.plain c])

/-- The position after one more character, and the pieces that are complete. -/
def next : Position → Char → Position × List Piece
  | .outside, c => opened c
  | .within quote text, c =>
    if c = quote then (.after quote text, []) else (.within quote (text ++ [c]), [])
  | .after quote text, c =>
    if c = quote then (.within quote (text ++ [c]), [])
    else ((opened c).1, .quoted quote (.ofList text) :: (opened c).2)

/-- What the end of the text completes. Between quotes, a text has no end. -/
def finish? : Position → Option (List Piece)
  | .outside => some []
  | .within .. => none
  | .after quote text => some [.quoted quote (.ofList text)]

/-- The pieces of a text that is read from a position on. -/
def read? (p : Position) : List Char → Option (List Piece)
  | [] => p.finish?
  | c :: rest => ((p.next c).1.read? rest).map ((p.next c).2 ++ ·)

end Position

/-- The pieces of a text. -/
def read? (text : String) : Option (List Piece) :=
  Position.outside.read? text.toList

example : read? "a = 'it''s; \\';" =
    some [.plain 'a', .plain ' ', .plain '=', .plain ' ', .quoted '\'' "it's; \\", .plain ';'] := by
  decide

/-! ### Single pieces -/

variable {c quote : Char} {x y text rest : List Char} {quotes quotes' : List (Char × String)}

namespace Position

theorem read?_plain (h : isQuote c = false) :
    outside.read? (c :: rest) = (outside.read? rest).map (.plain c :: ·) := by
  rw [read?, next, opened, if_neg (by simp [h])]
  rfl

/-- A doubled text is read as what it was, up to the quote that ends it. -/
theorem read?_doubled (before : List Char) :
    (within quote before).read? (doubled quote text ++ quote :: rest) =
      (after quote (before ++ text)).read? rest := by
  induction text generalizing before with
  | nil => simp [doubled, read?, next]
  | cons c text ih =>
    have hread : (within quote (before ++ [c])).read? (doubled quote text ++ quote :: rest) =
        (after quote (before ++ c :: text)).read? rest := by
      rw [ih, List.append_assoc, List.singleton_append]
    by_cases hc : c = quote
    · -- The first of the two quotes seems to end the text, and the second one takes that back.
      subst hc
      simp [doubled, read?, next, hread]
    · simp [doubled, read?, next, hc, hread]

/-- A quoted text ends where no further quote follows. -/
theorem read?_after (h : rest.head? ≠ some quote) :
    (after quote text).read? rest =
      (outside.read? rest).map (.quoted quote (.ofList text) :: ·) := by
  cases rest with
  | nil => rfl
  | cons c rest =>
    have hc : c ≠ quote := fun heq => h (congrArg some heq)
    simp only [read?, next, if_neg hc, Option.map_map]
    rfl

theorem read?_quoted (s : String) (hquote : isQuote quote = true) (h : rest.head? ≠ some quote) :
    outside.read? ((quoted quote s).toList ++ rest) =
      (outside.read? rest).map (.quoted quote s :: ·) := by
  have hopened : outside.next quote = (within quote [], []) := by rw [next, opened, if_pos hquote]
  rw [quoted, String.toList_ofList, List.append_assoc, List.cons_append, read?, hopened,
    List.singleton_append, read?_doubled, List.nil_append, read?_after h, String.ofList_toList,
    Option.map_map]
  rfl

end Position

/-! ### Texts of several pieces -/

/-- A character that opens no quotes and ends no statement. -/
def isBare (c : Char) : Bool :=
  !isQuote c && c != ';'

/-- A text without quotes and semicolons. -/
def Bare (text : List Char) : Prop :=
  ∀ c ∈ text, isBare c = true

/-- A text that does not start with a quote, so that it can follow a quoted one. -/
def StartsBare (text : List Char) : Prop :=
  ∀ c ∈ text.head?, isQuote c = false

/-- The quoted texts of `text` are `quotes`, in this order. None of them is followed by a quote, and
no semicolon stands outside of them. -/
inductive Quoting : List Char → List (Char × String) → Prop
  | nil : Quoting [] []
  | bare {c : Char} {rest : List Char} {quotes : List (Char × String)} (hc : isBare c = true)
    (h : Quoting rest quotes) : Quoting (c :: rest) quotes
  | quoted {quote : Char} {s : String} {rest : List Char} {quotes : List (Char × String)}
    (hquote : isQuote quote = true) (hrest : StartsBare rest) (h : Quoting rest quotes) :
    Quoting ((quoted quote s).toList ++ rest) ((quote, s) :: quotes)

theorem isQuote_of_isBare (h : isBare c = true) : isQuote c = false := by
  rw [isBare, Bool.and_eq_true, Bool.not_eq_true'] at h
  exact h.1

theorem StartsBare.head?_ne (h : StartsBare rest) (hquote : isQuote quote = true) :
    rest.head? ≠ some quote := by
  intro hhead
  have hbare := h quote hhead
  rw [hquote] at hbare
  cases hbare

theorem StartsBare.nil : StartsBare [] := by
  intro c hc
  cases hc

theorem StartsBare.append (hx : StartsBare x) (hy : StartsBare y) : StartsBare (x ++ y) := by
  cases x with
  | nil => exact hy
  | cons c x => exact hx

theorem Bare.startsBare (h : Bare x) : StartsBare x :=
  fun c hc => isQuote_of_isBare (h c (List.mem_of_mem_head? hc))

/-- Whatever follows a bare text does not start the whole. -/
theorem Bare.startsBare_append (hx : Bare x) (hne : x ≠ []) : StartsBare (x ++ y) := by
  obtain ⟨c, x, rfl⟩ := List.exists_cons_of_ne_nil hne
  exact hx.startsBare

theorem Bare.append (hx : Bare x) (hy : Bare y) : Bare (x ++ y) :=
  List.forall_mem_append.2 ⟨hx, hy⟩

theorem Bare.word (s : String) (h : s.toList.all isBare = true) : Bare s.toList :=
  List.all_eq_true.1 h

namespace Quoting

/-- What follows the text is read as if it stood alone, unless it starts with a quote. -/
theorem read (h : Quoting x quotes) : ∃ pieces,
    (∀ rest, StartsBare rest →
      Position.outside.read? (x ++ rest) = (Position.outside.read? rest).map (pieces ++ ·)) ∧
    pieces.filterMap Piece.quoted? = quotes ∧ .plain ';' ∉ pieces := by
  induction h with
  | nil => exact ⟨[], fun rest _ => by simp, rfl, by simp⟩
  | @bare c _ _ hc _ ih =>
    obtain ⟨pieces, hread, hquotes, hend⟩ := ih
    have hne : ';' ≠ c := by
      rintro rfl
      cases hc
    refine ⟨.plain c :: pieces, fun rest hrest => ?_, hquotes, by simp [hne, hend]⟩
    rw [List.cons_append, Position.read?_plain (isQuote_of_isBare hc), hread rest hrest,
      Option.map_map]
    rfl
  | @quoted quote s more _ hquote hmore _ ih =>
    obtain ⟨pieces, hread, hquotes, hend⟩ := ih
    refine ⟨.quoted quote s :: pieces, fun rest hrest => ?_, ?_, by simp [hend]⟩
    · rw [List.append_assoc, Position.read?_quoted s hquote ((hmore.append hrest).head?_ne hquote),
        hread rest hrest, Option.map_map]
      rfl
    · rw [List.filterMap_cons, hquotes]
      rfl

theorem append (hx : Quoting x quotes) (hstart : StartsBare y) (hy : Quoting y quotes') :
    Quoting (x ++ y) (quotes ++ quotes') := by
  induction hx with
  | nil => exact hy
  | bare hc _ ih => exact .bare hc ih
  | quoted hquote hrest _ ih =>
    rw [List.append_assoc]
    exact .quoted hquote (hrest.append hstart) ih

/-- A bare text in front. -/
theorem after (hx : Bare x) (hy : Quoting y quotes) : Quoting (x ++ y) quotes := by
  induction x with
  | nil => exact hy
  | cons c x ih =>
    rw [Bare, List.forall_mem_cons] at hx
    exact .bare hx.1 (ih hx.2)

theorem of_bare (hx : Bare x) : Quoting x [] := by
  have h := after hx .nil
  rwa [List.append_nil] at h

theorem of_quoted (hquote : isQuote quote = true) (s : String) :
    Quoting (Text.quoted quote s).toList [(quote, s)] := by
  have h : Quoting ((Text.quoted quote s).toList ++ []) [(quote, s)] :=
    .quoted hquote .nil .nil
  rwa [List.append_nil] at h

/-- A bare text behind. -/
theorem before (hx : Quoting x quotes) (hy : Bare y) : Quoting (x ++ y) quotes := by
  have h := hx.append hy.startsBare (of_bare hy)
  rwa [List.append_nil] at h

/-- Two texts with a bare text between them. -/
theorem separated (hx : Quoting x quotes) (hseparator : Bare text) (hne : text ≠ [])
    (hy : Quoting y quotes') : Quoting (x ++ text ++ y) (quotes ++ quotes') := by
  rw [List.append_assoc]
  exact hx.append (hseparator.startsBare_append hne) (after hseparator hy)

/-- A text between brackets. -/
theorem between (hx : Quoting x quotes) : Quoting ('(' :: x ++ [')']) quotes :=
  (Quoting.bare (c := '(') rfl hx).before (by simp [Bare, isBare, isQuote])

/-- Texts that start bare, one after the other. -/
theorem flatMap {α : Type} {f : α → List Char} {g : α → List (Char × String)} {items : List α}
    (h : ∀ a ∈ items, StartsBare (f a) ∧ Quoting (f a) (g a)) :
    StartsBare (items.flatMap f) ∧ Quoting (items.flatMap f) (items.flatMap g) := by
  induction items with
  | nil => exact ⟨.nil, .nil⟩
  | cons a rest ih =>
    obtain ⟨⟨hstart, ha⟩, hrest⟩ := List.forall_mem_cons.1 h
    obtain ⟨hstartRest, hrest⟩ := ih hrest
    exact ⟨hstart.append hstartRest, ha.append hstartRest hrest⟩

/-- A list of texts. -/
theorem intercalate {α : Type} {f : α → List Char} {g : α → List (Char × String)} {items : List α}
    (hseparator : Bare text) (hne : text ≠ []) (h : ∀ a ∈ items, Quoting (f a) (g a)) :
    Quoting (text.intercalate (items.map f)) (items.flatMap g) := by
  induction items with
  | nil => exact .nil
  | cons a rest ih =>
    rw [List.forall_mem_cons] at h
    cases rest with
    | nil => simpa using h.1
    | cons b rest =>
      rw [List.map_cons, List.map_cons, List.intercalate_cons_cons, ← List.map_cons,
        List.flatMap_cons]
      exact h.1.separated hseparator hne (ih h.2)

end Quoting

end PredicateSql.Text
