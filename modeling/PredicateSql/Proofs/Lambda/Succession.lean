import PredicateSql.Proofs.Lambda.Lexing

/-!
# Tokens one after the other

A text is read by taking the next token again and again, also after failures.

* `scan_bounds`: a token ends within the text, and a literal has room for its quotes.
* `Cursor.IsWithin`: the invariant of a cursor. It stands at a place of the text and sees what is
  left from there on.
* `Cursor.Moves`: what one call does to a cursor within a text. `IsWithin.after` and
  `IsWithin.place_after_le`: what a run of calls does, by induction on their number.
* `Cursor.result_spec`: tokens are pieces of the text, in order and with blanks between them, and
  the calls come to an end.
-/

namespace PredicateSql

/-! ### Bounds of tokens -/

theorem escapedLength_bounds {quote : Char} {rest : List UInt8} {n : Nat}
    (h : escapedLength quote rest = some n) : 0 < n ∧ n ≤ rest.length := by
  fun_induction escapedLength quote rest generalizing n with
  | case1 => cases h
  | case2 => cases h
  | case3 b hb c rest ih =>
    obtain ⟨k, hk, rfl⟩ := Option.map_eq_some_iff.1 h
    have hle := ih hk
    simp only [List.length_cons]
    omega
  | case4 b rest hb hquote =>
    obtain rfl := Option.some.inj h
    simp
  | case5 b rest hb hquote ih =>
    obtain ⟨k, hk, rfl⟩ := Option.map_eq_some_iff.1 h
    have hle := ih hk
    simp only [List.length_cons]
    omega

theorem verbatimLength_bounds {quote : Char} {rest : List UInt8} {n : Nat}
    (h : verbatimLength quote rest = some n) : 0 < n ∧ n ≤ rest.length := by
  fun_induction verbatimLength quote rest generalizing n with
  | case1 => cases h
  | case2 b hb =>
    obtain rfl := Option.some.inj h
    simp
  | case3 b hb d rest hd ih =>
    obtain ⟨k, hk, rfl⟩ := Option.map_eq_some_iff.1 h
    have hle := ih hk
    simp only [List.length_cons]
    omega
  | case4 b hb d rest hd =>
    obtain rfl := Option.some.inj h
    simp
  | case5 b rest hb ih =>
    obtain ⟨k, hk, rfl⟩ := Option.map_eq_some_iff.1 h
    have hle := ih hk
    simp only [List.length_cons]
    omega

theorem fractionLength_le (rest : List UInt8) : fractionLength rest ≤ rest.length := by
  cases rest with
  | nil => exact Nat.le_refl _
  | cons point more =>
    have hle := length_takeWhile_le isDigitByte more
    simp only [fractionLength, List.length_cons]
    split <;> omega

theorem numberLength_le (rest : List UInt8) : numberLength rest ≤ rest.length := by
  have hafter : ∀ r : List UInt8, afterDigitsLength r ≤ r.length := by
    intro r
    have hfraction := fractionLength_le r
    have hsuffix := length_takeWhile_le isSuffixByte (r.drop (fractionLength r))
    rw [List.length_drop] at hsuffix
    rw [afterDigitsLength]
    omega
  have hwhole := length_takeWhile_le isDigitByte rest
  have hrest := hafter (rest.drop (rest.takeWhile isDigitByte).length)
  rw [List.length_drop] at hrest
  rw [numberLength_eq]
  omega

theorem length_pos_of_goesOnWith {c : Char} {rest : List UInt8} (h : goesOnWith c rest = true) :
    0 < rest.length := by
  cases rest with
  | nil => cases h
  | cons => exact Nat.succ_pos _

/-- A word has no quotes. -/
theorem quotes_wordKind (word : List UInt8) :
    Token.opening (wordKind word) = 0 ∧ Token.closing (wordKind word) = 0 := by
  unfold wordKind
  split <;> exact ⟨rfl, rfl⟩

/-- A token ends within the text, and a literal has room for its quotes. -/
theorem scan_bounds {b : UInt8} {rest : List UInt8} {kind : TokenKind} {n : Nat}
    (h : scan b rest = .token kind n) :
    n ≤ rest.length ∧ Token.opening kind + Token.closing kind ≤ n + 1 := by
  unfold scan at h
  split at h
  case h_22 | h_23 =>
    have hlength := eq_some_of_literal h
    have hbounds := escapedLength_bounds hlength
    rw [hlength] at h
    obtain ⟨rfl, -⟩ := Scan.token.inj h
    refine ⟨hbounds.2, ?_⟩
    simp only [Token.opening, Token.closing]
    omega
  case h_24 =>
    rcases rest with _ | ⟨d, rest⟩
    · cases h
    dsimp only at h
    split_ifs at h
    have hlength := eq_some_of_literal h
    rw [hlength] at h
    obtain ⟨k, hk, rfl⟩ := Option.map_eq_some_iff.1 hlength
    have hbounds := verbatimLength_bounds hk
    obtain ⟨rfl, -⟩ := Scan.token.inj h
    simp only [Token.opening, Token.closing, List.length_cons]
    omega
  case h_25 =>
    split_ifs at h
    · obtain ⟨rfl, rfl⟩ := Scan.token.inj h
      refine ⟨length_takeWhile_le isWordByte rest, ?_⟩
      have hquotes := quotes_wordKind (b :: rest.takeWhile isWordByte)
      omega
    · obtain ⟨rfl, rfl⟩ := Scan.token.inj h
      exact ⟨numberLength_le rest, Nat.zero_le _⟩
  case h_16 | h_17 | h_18 | h_19 | h_20 | h_21 =>
    split_ifs at h
    all_goals
      obtain ⟨rfl, rfl⟩ := Scan.token.inj h
      refine ⟨?_, Nat.zero_le _⟩
      first
        | exact Nat.zero_le _
        | exact length_pos_of_goesOnWith ‹_›
  all_goals
    obtain ⟨rfl, rfl⟩ := Scan.token.inj h
    exact ⟨Nat.zero_le _, Nat.zero_le _⟩

/-! ### Pieces of a text -/

/-- The token is a piece of the text, and its contents are the piece without its quotes. All
places lie within the text, and none comes before the one that it is counted from. -/
structure Token.IsPieceOf (bytes : List UInt8) (t : Token) : Prop where
  start_lt : t.start < t.stop
  stop_le : t.stop ≤ bytes.length
  source_eq : bytes.extract t.start t.stop = t.source
  opening_le : t.start + opening t.kind ≤ t.stop - closing t.kind
  contents_eq : bytes.extract (t.start + opening t.kind) (t.stop - closing t.kind) = t.contents

/-- Where a text of some length is left off: at a token, at a failure, or at its end. -/
def placeOf (length : Nat) : Except LexicalError (Option Token) → Nat
  | .ok (some t) => t.start
  | .ok none => length
  | .error (.unterminatedLiteral start) => start
  | .error (.unexpectedCharacter place) => place

namespace Cursor

variable {bytes : List UInt8} {c : Cursor} {n : Nat}

/-- The cursor is at a place of the text, and the text from there on is left. -/
structure IsWithin (bytes : List UInt8) (c : Cursor) : Prop where
  place_le : c.place ≤ bytes.length
  rest_eq : c.rest = bytes.drop c.place

theorem ofBytes_within (bytes : List UInt8) : (ofBytes bytes).IsWithin bytes :=
  ⟨Nat.zero_le _, rfl⟩

theorem IsWithin.length_rest (h : c.IsWithin bytes) : c.rest.length = bytes.length - c.place := by
  rw [h.rest_eq, List.length_drop]

theorem IsWithin.advance (h : c.IsWithin bytes) (hn : n ≤ c.rest.length) :
    (c.advance n).IsWithin bytes := by
  have hlength := h.length_rest
  have hplace := h.place_le
  refine ⟨?_, ?_⟩
  · show c.place + n ≤ bytes.length
    omega
  · show c.rest.drop n = bytes.drop (c.place + n)
    rw [h.rest_eq, List.drop_drop]

theorem IsWithin.skipBlanks (h : c.IsWithin bytes) : c.skipBlanks.IsWithin bytes :=
  h.advance (length_takeWhile_le isSpaceByte c.rest)

theorem place_le_skipBlanks (c : Cursor) : c.place ≤ c.skipBlanks.place :=
  Nat.le_add_right _ _

/-- Only blanks are passed over before a token. -/
theorem IsWithin.blank (h : c.IsWithin bytes) {i : Nat} (hi : c.place ≤ i)
    (hskip : i < c.skipBlanks.place) : ∃ b, bytes[i]? = some b ∧ isSpaceByte b = true := by
  have hlt : i - c.place < (c.rest.takeWhile isSpaceByte).length := by
    have hplace : c.skipBlanks.place = c.place + (c.rest.takeWhile isSpaceByte).length := rfl
    omega
  have hmem := List.getElem_mem hlt
  refine ⟨_, ?_, List.mem_takeWhile_imp hmem⟩
  have hget : c.rest[i - c.place]? = bytes[i]? := by
    rw [h.rest_eq, List.getElem?_drop, Nat.add_sub_cancel' hi]
  rw [← hget, (List.takeWhile_prefix _).getElem hlt]
  exact List.getElem?_eq_getElem _

/-- A token that a cursor within a text is at is a piece of the text. -/
theorem IsWithin.isPieceOf (h : c.IsWithin bytes) {b : UInt8} {rest : List UInt8}
    {kind : TokenKind} (hrest : c.rest = b :: rest) (hscan : scan b rest = .token kind n) :
    Token.IsPieceOf bytes ⟨kind, c.place, b :: rest.take n⟩ ∧
      Token.stop ⟨kind, c.place, b :: rest.take n⟩ = (c.advance (n + 1)).place := by
  obtain ⟨hn, hquotes⟩ := scan_bounds hscan
  have hlength : (b :: rest.take n).length = n + 1 := by
    rw [List.length_cons, List.length_take, Nat.min_eq_left hn]
  have hbound : c.place + (n + 1) ≤ bytes.length := by
    have hleft := h.length_rest
    have hplace := h.place_le
    rw [hrest, List.length_cons] at hleft
    omega
  have hsource : (bytes.drop c.place).take (n + 1) = b :: rest.take n := by
    rw [← h.rest_eq, hrest, List.take_succ_cons]
  have hstop : Token.stop ⟨kind, c.place, b :: rest.take n⟩ = c.place + (n + 1) := by
    rw [Token.stop, hlength]
  refine ⟨⟨?_, ?_, ?_, ?_, ?_⟩, hstop⟩
  · rw [hstop]
    exact Nat.lt_add_of_pos_right (Nat.succ_pos _)
  · rwa [hstop]
  · rw [hstop, List.extract_eq_take_drop, Nat.add_sub_cancel_left, hsource]
  · rw [hstop]
    show c.place + Token.opening kind ≤ c.place + (n + 1) - Token.closing kind
    omega
  · rw [hstop, List.extract_eq_take_drop, Token.contents, hlength, ← hsource]
    show ((bytes.drop (c.place + Token.opening kind)).take
        (c.place + (n + 1) - Token.closing kind - (c.place + Token.opening kind))) =
      (((bytes.drop c.place).take (n + 1)).drop (Token.opening kind)).take
        (n + 1 - Token.opening kind - Token.closing kind)
    rw [List.drop_take, List.take_take, List.drop_drop]
    congr 1
    omega

/-! ### Single calls -/

/-- What one call does to a cursor within a text: it goes to the first place that is not blank, and
past what starts there, if anything does. -/
structure Moves (bytes : List UInt8) (c : Cursor) : Prop where
  within : c.next.2.IsWithin bytes
  place_eq : placeOf bytes.length c.next.1 = c.skipBlanks.place
  place_le : c.skipBlanks.place ≤ c.next.2.place
  place_lt : c.next.1 ≠ .ok none → c.skipBlanks.place < c.next.2.place
  of_none : c.next.1 = .ok none → c.next.2.place = bytes.length
  of_token : ∀ t, c.next.1 = .ok (some t) → t.IsPieceOf bytes ∧ t.stop = c.next.2.place

theorem IsWithin.moves (h : c.IsWithin bytes) : c.Moves bytes := by
  have hskip := h.skipBlanks
  cases hrest : c.skipBlanks.rest with
  | nil =>
    have hnext : c.next = (.ok none, c.skipBlanks) := by simp only [next, hrest]
    have hend : c.skipBlanks.place = bytes.length := by
      have hlength := hskip.length_rest
      have hplace := hskip.place_le
      rw [hrest, List.length_nil] at hlength
      omega
    constructor <;> rw [hnext]
    · exact hskip
    · exact hend.symm
    · exact fun hne => absurd rfl hne
    · exact fun _ => hend
    · rintro t ⟨⟩
  | cons b rest =>
    have hlength : c.skipBlanks.rest.length = rest.length + 1 := by rw [hrest, List.length_cons]
    cases hscan : scan b rest with
    | token kind n =>
      obtain ⟨hpiece, hstop⟩ := hskip.isPieceOf hrest hscan
      have hn := (scan_bounds hscan).1
      constructor <;> rw [next_of_scan hrest hscan]
      · exact hskip.advance (by omega)
      · rfl
      · exact Nat.le_add_right _ _
      · exact fun _ => Nat.lt_add_of_pos_right (Nat.succ_pos n)
      · rintro ⟨⟩
      · rintro t ⟨⟩
        exact ⟨hpiece, hstop⟩
    | unexpected =>
      have hnext : c.next = (.error (.unexpectedCharacter c.skipBlanks.place),
        c.skipBlanks.advance 1) := by simp only [next, hrest, hscan]
      constructor <;> rw [hnext]
      · exact hskip.advance (by omega)
      · rfl
      · exact Nat.le_add_right _ _
      · exact fun _ => Nat.lt_add_of_pos_right Nat.one_pos
      · rintro ⟨⟩
      · rintro t ⟨⟩
    | unterminated =>
      have hnext : c.next = (.error (.unterminatedLiteral c.skipBlanks.place),
        c.skipBlanks.advance c.skipBlanks.rest.length) := by simp only [next, hrest, hscan]
      constructor <;> rw [hnext]
      · exact hskip.advance (Nat.le_refl _)
      · rfl
      · exact Nat.le_add_right _ _
      · exact fun _ => Nat.lt_add_of_pos_right (by omega)
      · rintro ⟨⟩
      · rintro t ⟨⟩

/-! ### Runs of calls -/

/-- The cursor after so many calls. -/
def after (c : Cursor) : Nat → Cursor
  | 0 => c
  | count + 1 => (c.after count).next.2

/-- What a call returns. The calls are counted from zero. -/
def result (c : Cursor) (count : Nat) : Except LexicalError (Option Token) :=
  (c.after count).next.1

theorem IsWithin.after (h : c.IsWithin bytes) (count : Nat) : (c.after count).IsWithin bytes := by
  induction count with
  | zero => exact h
  | succ count ih => exact ih.moves.within

/-- No call goes back. -/
theorem IsWithin.place_after_le (h : c.IsWithin bytes) {m n : Nat} (hle : m ≤ n) :
    (c.after m).place ≤ (c.after n).place := by
  induction hle with
  | refl => exact Nat.le_refl _
  | @step n _ ih =>
    have hskip := place_le_skipBlanks (c.after n)
    have hnext := (h.after n).moves.place_le
    exact Nat.le_trans ih (Nat.le_trans hskip hnext)

/-- The calls before the end of a text take at least one byte each. -/
theorem IsWithin.place_lt_after (h : c.IsWithin bytes) (hn : c.result n ≠ .ok none) :
    (c.after n).place < (c.after (n + 1)).place :=
  Nat.lt_of_le_of_lt (place_le_skipBlanks _) ((h.after n).moves.place_lt hn)

theorem IsWithin.le_place_after (h : c.IsWithin bytes) {count : Nat}
    (hcount : ∀ m < count, c.result m ≠ .ok none) : count ≤ (c.after count).place := by
  induction count with
  | zero => exact Nat.zero_le _
  | succ count ih =>
    have hle := ih fun m hm => hcount m (Nat.lt_succ_of_lt hm)
    have hlt := h.place_lt_after (hcount count (Nat.lt_succ_self _))
    omega

/-- Nothing follows the end of a text. -/
theorem IsWithin.result_of_none (h : c.IsWithin bytes) {m : Nat} (hm : c.result m = .ok none)
    (hle : m ≤ n) : c.result n = .ok none := by
  obtain rfl | hlt := Nat.eq_or_lt_of_le hle
  · exact hm
  by_contra hne
  -- The text was at its end after call `m` already, so call `n` cannot go on.
  have hend : (c.after (m + 1)).place = bytes.length := (h.after m).moves.of_none hm
  have hback : (c.after (m + 1)).place ≤ (c.after n).place := h.place_after_le hlt
  have hstep := h.place_lt_after hne
  have hbound := (h.after (n + 1)).place_le
  omega

/-- The calls come to the end of a text, at the latest when there have been as many as bytes. -/
theorem IsWithin.result_of_length_le (h : c.IsWithin bytes) (hn : bytes.length ≤ n) :
    c.result n = .ok none := by
  by_contra hne
  have hcount : ∀ m < n + 1, c.result m ≠ .ok none :=
    fun m hm hm' => hne (h.result_of_none hm' (Nat.le_of_lt_succ hm))
  have hle := h.le_place_after hcount
  have hbound := (h.after (n + 1)).place_le
  omega

/-- A byte before the place of a call lies in a token of an earlier one or is blank, if there was no
failure before. -/
theorem IsWithin.covered (h : c.IsWithin bytes) {i : Nat}
    (hn : ∀ m < n, ∀ e, c.result m ≠ .error e) (hi : c.place ≤ i)
    (hlt : i < placeOf bytes.length (c.result n)) :
    (∃ m < n, ∃ t, c.result m = .ok (some t) ∧ t.start ≤ i ∧ i < t.stop) ∨
      ∃ b, bytes[i]? = some b ∧ isSpaceByte b = true := by
  induction n with
  | zero => exact .inr (h.blank hi (h.moves.place_eq ▸ hlt))
  | succ n ih =>
    have hmoves := (h.after n).moves
    by_cases hbefore : i < placeOf bytes.length (c.result n)
    · obtain ⟨m, hm, hfound⟩ | hblank := ih (fun m hm => hn m (Nat.lt_succ_of_lt hm)) hbefore
      · exact .inl ⟨m, Nat.lt_succ_of_lt hm, hfound⟩
      · exact .inr hblank
    by_cases hinside : i < (c.after (n + 1)).place
    · -- The place is past where call `n` began, so it is in the token of that call.
      refine .inl ⟨n, Nat.lt_succ_self _, ?_⟩
      cases hresult : c.result n with
      | error e => exact absurd hresult (hn n (Nat.lt_succ_self _) e)
      | ok found =>
        rw [hresult] at hbefore
        cases found with
        | none =>
          have hend : (c.after (n + 1)).place = bytes.length := hmoves.of_none hresult
          exact absurd (hend ▸ hinside) hbefore
        | some t =>
          have hstop : t.stop = (c.after (n + 1)).place := (hmoves.of_token t hresult).2
          exact ⟨t, rfl, Nat.le_of_not_lt hbefore, hstop ▸ hinside⟩
    · have hwithin := h.after (n + 1)
      exact .inr (hwithin.blank (Nat.le_of_not_lt hinside) (hwithin.moves.place_eq ▸ hlt))

/-- Tokens are pieces of the text and stand in order. Up to the first failure, the bytes outside of
the tokens are blanks. Each call takes at least one byte until the end of the text, which is reached
after no more calls than there are bytes. -/
theorem result_spec (bytes : List UInt8) :
    (∀ n t, (ofBytes bytes).result n = .ok (some t) → t.IsPieceOf bytes) ∧
      (∀ m n t u, m < n → (ofBytes bytes).result m = .ok (some t) →
        (ofBytes bytes).result n = .ok (some u) → t.stop ≤ u.start) ∧
      (∀ n, (∀ m < n, ∀ e, (ofBytes bytes).result m ≠ .error e) →
        ∀ i < placeOf bytes.length ((ofBytes bytes).result n),
          (∃ m < n, ∃ t, (ofBytes bytes).result m = .ok (some t) ∧ t.start ≤ i ∧ i < t.stop) ∨
            ∃ b, bytes[i]? = some b ∧ isSpaceByte b = true) ∧
      (∀ n, (ofBytes bytes).result n ≠ .ok none →
        ((ofBytes bytes).after n).place < ((ofBytes bytes).after (n + 1)).place) ∧
      ∀ n, bytes.length ≤ n → (ofBytes bytes).result n = .ok none := by
  have h := ofBytes_within bytes
  refine ⟨?_, ?_, ?_, fun n hn => h.place_lt_after hn, fun n hn => h.result_of_length_le hn⟩
  · exact fun n t ht => ((h.after n).moves.of_token t ht).1
  · intro m n t u hlt ht hu
    calc t.stop = ((ofBytes bytes).after (m + 1)).place := ((h.after m).moves.of_token t ht).2
      _ ≤ ((ofBytes bytes).after n).place := h.place_after_le (Nat.succ_le_of_lt hlt)
      _ ≤ ((ofBytes bytes).after n).skipBlanks.place := place_le_skipBlanks _
      _ = placeOf bytes.length ((ofBytes bytes).result n) := (h.after n).moves.place_eq.symm
      _ = u.start := by rw [hu, placeOf]
  · exact fun n hn i hi => h.covered hn (Nat.zero_le _) hi

/-- A word and a literal before a failure. -/
theorem result_spec_failure :
    let bytes := Text.Utf8.encode "a \"b\" ="
    let c := ofBytes bytes
    let word : Token := ⟨.identifier, 0, Text.Utf8.encode "a"⟩
    let literal : Token := ⟨.string, 2, Text.Utf8.encode "\"b\""⟩
    c.result 0 = .ok (some word) ∧ c.result 1 = .ok (some literal) ∧
      c.result 2 = .error (.unexpectedCharacter 6) ∧
      word.IsPieceOf bytes ∧ literal.IsPieceOf bytes ∧ word.stop ≤ literal.start ∧
      (∀ i < 6, (∃ m < 2, ∃ t, c.result m = .ok (some t) ∧ t.start ≤ i ∧ i < t.stop) ∨
        ∃ b, bytes[i]? = some b ∧ isSpaceByte b = true) ∧
      (c.after 2).place < (c.after 3).place ∧ c.result 7 = .ok none := by
  intro bytes c word literal
  obtain ⟨hpiece, horder, hcovered, hlt, hend⟩ := result_spec bytes
  have hword : c.result 0 = .ok (some word) := rfl
  have hliteral : c.result 1 = .ok (some literal) := rfl
  have hfailure : c.result 2 = .error (.unexpectedCharacter 6) := rfl
  refine ⟨hword, hliteral, hfailure, hpiece 0 word hword, hpiece 1 literal hliteral,
    horder 0 1 word literal Nat.one_pos hword hliteral, ?_, ?_, hend 7 (by decide)⟩
  · refine hcovered 2 fun m hm e he => ?_
    obtain rfl | rfl := Nat.le_one_iff_eq_zero_or_eq_one.1 (Nat.le_of_lt_succ hm)
    · cases hword.symm.trans he
    · cases hliteral.symm.trans he
  · refine hlt 2 fun hnone => ?_
    cases hfailure.symm.trans hnone

end Cursor

end PredicateSql
