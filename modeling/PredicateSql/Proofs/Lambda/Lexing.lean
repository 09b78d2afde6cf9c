import Mathlib.Data.List.TakeWhile
import PredicateSql.Lambda.Lexer
import PredicateSql.Proofs.Lambda.Gap

/-!
# Tokens of joined texts

The tokens of a text are those of its parts, if the parts are cut after a word and the second part
does not go on with it.

* `Cursor.Lexes`: the tokens from a place on, and the failure that ends them. `lexes_iff`: they are
  what `Cursor.tokens` finds.
* `scan_append`: a token is not changed by what follows the text that it was found in.
* `Cursor.Lexes.append`: the tokens of a text that is cut after a word.
* `Cursor.Lexes.move`: somewhere else, the same text has the same tokens.
-/

namespace PredicateSql

theorem Text.Utf8.encode_append (a b : String) : encode (a ++ b) = encode a ++ encode b := by
  rw [encode, encode, encode, String.toByteArray_append]
  simp

/-! ### Lengths -/

theorem escapedLength_append {quote : Char} {rest : List UInt8} {n : Nat} (more : List UInt8)
    (h : escapedLength quote rest = some n) : escapedLength quote (rest ++ more) = some n := by
  fun_induction escapedLength quote rest generalizing n with
  | case1 => cases h
  | case2 => cases h
  | case3 b hb c rest ih =>
    obtain ⟨k, hk, rfl⟩ := Option.map_eq_some_iff.1 h
    rw [List.cons_append, List.cons_append, escapedLength, if_pos hb, ih hk]
    rfl
  | case4 b rest hb hquote =>
    rw [List.cons_append, escapedLength.eq_def]
    simpa only [if_neg hb, if_pos hquote] using h
  | case5 b rest hb hquote ih =>
    obtain ⟨k, hk, rfl⟩ := Option.map_eq_some_iff.1 h
    rw [List.cons_append, escapedLength.eq_def]
    simp only [if_neg hb, if_neg hquote, ih hk]
    rfl

/-- A quote at the very end may be doubled by what follows. -/
theorem verbatimLength_append {quote : Char} {rest : List UInt8} {n : Nat} (more : List UInt8)
    (h : verbatimLength quote rest = some n) (hrest : rest.drop n ≠ []) :
    verbatimLength quote (rest ++ more) = some n := by
  fun_induction verbatimLength quote rest generalizing n with
  | case1 => cases h
  | case2 b hb =>
    obtain rfl := Option.some.inj h
    exact absurd rfl hrest
  | case3 b hb d rest hd ih =>
    obtain ⟨k, hk, rfl⟩ := Option.map_eq_some_iff.1 h
    rw [List.cons_append, List.cons_append, verbatimLength, if_pos hb, if_pos hd, ih hk hrest]
    rfl
  | case4 b hb d rest hd =>
    rw [List.cons_append, List.cons_append, verbatimLength, if_pos hb, if_neg hd]
    exact h
  | case5 b rest hb ih =>
    obtain ⟨k, hk, rfl⟩ := Option.map_eq_some_iff.1 h
    rw [List.cons_append, verbatimLength.eq_def]
    simp only [if_neg hb, ih hk hrest]
    rfl

/-- How far a class of bytes goes on is told before the end of a text, if something is left. -/
theorem takeWhile_append_of_drop {p : UInt8 → Bool} {rest : List UInt8} (more : List UInt8)
    (h : rest.drop (rest.takeWhile p).length ≠ []) :
    (rest ++ more).takeWhile p = rest.takeWhile p := by
  rw [List.takeWhile_append, if_neg]
  intro heq
  rw [heq, List.drop_length] at h
  exact h rfl

theorem length_takeWhile_le (p : UInt8 → Bool) (rest : List UInt8) :
    (rest.takeWhile p).length ≤ rest.length :=
  (List.takeWhile_prefix p).length_le

theorem drop_append_of_drop_ne_nil {rest : List UInt8} {n : Nat} (more : List UInt8)
    (h : rest.drop n ≠ []) : n ≤ rest.length ∧ (rest ++ more).drop n = rest.drop n ++ more := by
  have hle : n ≤ rest.length := by
    by_contra hlt
    exact h (List.drop_of_length_le (by omega))
  exact ⟨hle, List.drop_append_of_le_length hle⟩

theorem drop_ne_nil_of_add {rest : List UInt8} {m n : Nat} (h : rest.drop (m + n) ≠ []) :
    rest.drop m ≠ [] := by
  intro hnil
  rw [← List.drop_drop, hnil, List.drop_nil] at h
  exact h rfl

/-- How far a number goes on with a point after its first digits. -/
def fractionLength (rest : List UInt8) : Nat :=
  match rest with
  | point :: more =>
    let digits := (more.takeWhile isDigitByte).length
    if ascii point == '.' && digits != 0 then 1 + digits else 0
  | [] => 0

/-- How far a number goes on after its first digits. -/
def afterDigitsLength (rest : List UInt8) : Nat :=
  fractionLength rest + ((rest.drop (fractionLength rest)).takeWhile isSuffixByte).length

theorem numberLength_eq (rest : List UInt8) :
    numberLength rest = (rest.takeWhile isDigitByte).length +
      afterDigitsLength (rest.drop (rest.takeWhile isDigitByte).length) := by
  rw [afterDigitsLength, List.drop_drop, ← Nat.add_assoc]
  rfl

theorem fractionLength_point {b : UInt8} {rest : List UInt8} (h : ascii b = '.') :
    fractionLength (b :: rest) =
      if rest.takeWhile isDigitByte = [] then 0 else 1 + (rest.takeWhile isDigitByte).length := by
  simp only [fractionLength, h, beq_self_eq_true, Bool.true_and]
  cases rest.takeWhile isDigitByte <;> simp

theorem fractionLength_other {b : UInt8} {rest : List UInt8} (h : ascii b ≠ '.') :
    fractionLength (b :: rest) = 0 := by
  simp [fractionLength, h]

/-- A point belongs to a number if a digit follows. -/
theorem fractionLength_append {rest : List UInt8} (more : List UInt8)
    (hrest : rest.drop (fractionLength rest) ≠ []) (hpoint : ∀ b, rest = [b] → ascii b ≠ '.') :
    fractionLength (rest ++ more) = fractionLength rest := by
  rcases rest with _ | ⟨b, rest⟩
  · exact absurd List.drop_nil hrest
  rw [List.cons_append]
  by_cases hb : ascii b = '.'
  · rw [fractionLength_point hb] at hrest
    rw [fractionLength_point hb, fractionLength_point hb]
    rcases rest with _ | ⟨d, rest⟩
    · exact absurd hb (hpoint b rfl)
    · cases hd : isDigitByte d with
      | false => simp [hd]
      | true =>
        have hne : (d :: rest).takeWhile isDigitByte ≠ [] := by simp [hd]
        rw [if_neg hne, Nat.add_comm, List.drop_succ_cons] at hrest
        rw [takeWhile_append_of_drop more hrest]
  · rw [fractionLength_other hb, fractionLength_other hb]

theorem afterDigitsLength_append {rest : List UInt8} (more : List UInt8)
    (hrest : rest.drop (afterDigitsLength rest) ≠ [])
    (hpoint : ∀ b, rest.drop (afterDigitsLength rest) = [b] → ascii b ≠ '.') :
    afterDigitsLength (rest ++ more) = afterDigitsLength rest := by
  rw [afterDigitsLength] at hrest hpoint
  have hfraction := drop_ne_nil_of_add hrest
  rw [← List.drop_drop] at hrest
  have hsame : fractionLength (rest ++ more) = fractionLength rest := by
    refine fractionLength_append more hfraction fun b hb hpoint' => hpoint b ?_ hpoint'
    have hsuffix : isSuffixByte b = false := by
      rw [isSuffixByte, hpoint']
      decide
    rw [hb, fractionLength_point hpoint']
    simp [hsuffix]
  rw [afterDigitsLength, afterDigitsLength, hsame, (drop_append_of_drop_ne_nil more hfraction).2,
    takeWhile_append_of_drop more hrest]

/-- A number may go on with a point and a digit. -/
theorem numberLength_append {rest : List UInt8} (more : List UInt8)
    (hrest : rest.drop (numberLength rest) ≠ [])
    (hpoint : ∀ b, rest.drop (numberLength rest) = [b] → ascii b ≠ '.') :
    numberLength (rest ++ more) = numberLength rest := by
  rw [numberLength_eq] at hrest hpoint
  have hwhole := drop_ne_nil_of_add hrest
  rw [← List.drop_drop] at hrest hpoint
  rw [numberLength_eq, numberLength_eq rest, takeWhile_append_of_drop more hwhole,
    (drop_append_of_drop_ne_nil more hwhole).2, afterDigitsLength_append more hrest hpoint]

/-! ### Single tokens -/

theorem goesOnWith_append {c : Char} {rest : List UInt8} (more : List UInt8) (h : rest ≠ []) :
    goesOnWith c (rest ++ more) = goesOnWith c rest := by
  cases rest with
  | nil => exact absurd rfl h
  | cons => rfl

theorem eq_some_of_literal {kind kind' : TokenKind} {length : Option Nat} {n : Nat}
    (h : Scan.literal kind length = .token kind' n) : length = some n := by
  cases length with
  | none => cases h
  | some => rw [(Scan.token.inj h).2]

theorem scan_point {b : UInt8} (h : ascii b = '.') (rest : List UInt8) :
    scan b rest = .token .dot 0 := by
  unfold scan
  simp only [h]

/-- A token stays what it is if something is left of the text that it was found in, apart from a
point that may belong to a number. -/
theorem scan_append {b : UInt8} {rest : List UInt8} {kind : TokenKind} {n : Nat}
    (more : List UInt8) (h : scan b rest = .token kind n) (hrest : rest.drop n ≠ [])
    (hpoint : ∀ b, rest.drop n = [b] → ascii b ≠ '.') :
    scan b (rest ++ more) = .token kind n := by
  have hne : rest ≠ [] := by
    rintro rfl
    exact hrest List.drop_nil
  rw [← h]
  unfold scan at h ⊢
  simp only [goesOnWith_append more hne]
  split at h
  case h_22 | h_23 =>
    have hlength := eq_some_of_literal h
    simp only [hlength, escapedLength_append more hlength]
  case h_24 =>
    rcases rest with _ | ⟨d, rest⟩
    · exact absurd rfl hne
    simp only [List.cons_append] at h ⊢
    split_ifs at h ⊢ with hd
    · obtain ⟨k, hk, rfl⟩ := Option.map_eq_some_iff.1 (eq_some_of_literal h)
      rw [hk, verbatimLength_append more hk hrest]
  case h_25 =>
    split_ifs at h ⊢ with hword hdigit
    · obtain ⟨-, rfl⟩ := Scan.token.inj h
      simp only [takeWhile_append_of_drop more hrest]
    · obtain ⟨-, rfl⟩ := Scan.token.inj h
      rw [numberLength_append more hrest hpoint]
  all_goals rfl

/-- A word goes on as far as its bytes do. -/
theorem scan_of_isWordStart {b : UInt8} (hb : isWordStart b = true) (rest : List UInt8) :
    scan b rest = .token (wordKind (b :: rest.takeWhile isWordByte))
      (rest.takeWhile isWordByte).length := by
  unfold scan
  split
  case h_25 => rw [if_pos hb]
  all_goals
    next heq =>
      rw [isWordStart, heq] at hb
      exact absurd hb (by decide)

/-- Only a word is an identifier. -/
theorem isWordStart_of_scan {b : UInt8} {rest : List UInt8} {n : Nat}
    (h : scan b rest = .token .identifier n) : isWordStart b = true := by
  unfold scan at h
  split at h
  case h_25 =>
    split_ifs at h with hword
    · exact hword
    · cases h
  case h_22 => cases hlength : escapedLength '"' rest <;> rw [hlength] at h <;> cases h
  case h_23 => cases hlength : escapedLength '\'' rest <;> rw [hlength] at h <;> cases h
  case h_24 =>
    rcases rest with _ | ⟨d, rest⟩
    · cases h
    · dsimp only at h
      split_ifs at h
      cases hlength : verbatimLength '"' rest <;> rw [hlength] at h <;> cases h
  all_goals first
    | cases h
    | split_ifs at h <;> cases h

theorem scan_eq_word {b : UInt8} {rest : List UInt8} {n : Nat}
    (h : scan b rest = .token .identifier n) (rest' : List UInt8) :
    scan b rest' = .token (wordKind (b :: rest'.takeWhile isWordByte))
      (rest'.takeWhile isWordByte).length :=
  scan_of_isWordStart (isWordStart_of_scan h) rest'

/-- A word at the end of a text stays what it is before a byte that no word goes on with. -/
theorem scan_append_word {b : UInt8} {rest more : List UInt8} {n : Nat}
    (h : scan b rest = .token .identifier n) (hrest : rest.drop n = [])
    (hmore : ∀ d ∈ more.head?, isWordByte d = false) :
    scan b (rest ++ more) = .token .identifier n := by
  have hword := h.symm.trans (scan_eq_word h rest)
  have hself : rest.takeWhile isWordByte = rest := by
    rw [(Scan.token.inj hword).2] at hrest
    exact (List.takeWhile_prefix isWordByte).eq_of_length_le (List.drop_eq_nil_iff.1 hrest)
  have hstop : more.takeWhile isWordByte = [] := by
    cases more with
    | nil => rfl
    | cons d more => simp [hmore d rfl]
  rw [scan_eq_word h (rest ++ more), List.takeWhile_append, if_pos (by rw [hself]), hstop,
    List.append_nil, hword, hself]

namespace Cursor

variable {c : Cursor} {b : UInt8} {rest u v : List UInt8} {kind : TokenKind} {n place place' : Nat}
  {ts us : List Token} {failure : Option LexicalError}

/-! ### The next token -/

theorem length_skipBlanks_le (c : Cursor) : c.skipBlanks.rest.length ≤ c.rest.length := by
  rw [skipBlanks, advance, List.length_drop]
  exact Nat.sub_le _ _

/-- The token that a cursor is at, after blanks. -/
theorem next_of_scan (hrest : c.skipBlanks.rest = b :: rest) (hscan : scan b rest = .token kind n) :
    c.next = (.ok (some ⟨kind, c.skipBlanks.place, b :: rest.take n⟩),
      c.skipBlanks.advance (n + 1)) := by
  simp only [next, hrest, hscan]

/-! ### All tokens -/

/-- The tokens of the text from a place on, and the failure that ends them. -/
inductive Lexes : Cursor → List Token → Option LexicalError → Prop
  | done {c : Cursor} (hrest : c.skipBlanks.rest = []) : Lexes c [] none
  | token {c : Cursor} {b : UInt8} {rest : List UInt8} {kind : TokenKind} {n : Nat}
    {ts : List Token} {failure : Option LexicalError} (hrest : c.skipBlanks.rest = b :: rest)
    (hscan : scan b rest = .token kind n) (h : Lexes (c.skipBlanks.advance (n + 1)) ts failure) :
    Lexes c (⟨kind, c.skipBlanks.place, b :: rest.take n⟩ :: ts) failure
  | unexpected {c : Cursor} {b : UInt8} {rest : List UInt8} (hrest : c.skipBlanks.rest = b :: rest)
    (hscan : scan b rest = .unexpected) :
    Lexes c [] (some (.unexpectedCharacter c.skipBlanks.place))
  | unterminated {c : Cursor} {b : UInt8} {rest : List UInt8}
    (hrest : c.skipBlanks.rest = b :: rest) (hscan : scan b rest = .unterminated) :
    Lexes c [] (some (.unterminatedLiteral c.skipBlanks.place))

/-- A token takes at least one byte. -/
theorem length_advance_lt (hrest : c.skipBlanks.rest = b :: rest) (n : Nat) :
    (c.skipBlanks.advance (n + 1)).rest.length < c.rest.length := by
  have hle := c.length_skipBlanks_le
  rw [hrest, List.length_cons] at hle
  rw [advance, hrest, List.drop_succ_cons, List.length_drop]
  omega

theorem lexes_tokens {count : Nat} (hcount : c.rest.length < count) :
    c.Lexes (c.tokens count).1 (c.tokens count).2 := by
  induction count generalizing c with
  | zero => exact absurd hcount (Nat.not_lt_zero _)
  | succ count ih =>
    rw [tokens]
    cases hrest : c.skipBlanks.rest with
    | nil =>
      simp only [next, hrest]
      exact .done hrest
    | cons b rest =>
      cases hscan : scan b rest with
      | token kind n =>
        rw [next_of_scan hrest hscan]
        have hlt := length_advance_lt hrest n
        exact .token hrest hscan (ih (by omega))
      | unexpected =>
        simp only [next, hrest, hscan]
        exact .unexpected hrest hscan
      | unterminated =>
        simp only [next, hrest, hscan]
        exact .unterminated hrest hscan

theorem Lexes.tokens_eq {count : Nat} (h : c.Lexes ts failure) (hcount : c.rest.length < count) :
    c.tokens count = (ts, failure) := by
  cases count with
  | zero => exact absurd hcount (Nat.not_lt_zero _)
  | succ count =>
    induction h generalizing count with
    | done hrest => simp only [tokens, next, hrest]
    | unexpected hrest hscan | unterminated hrest hscan => simp only [tokens, next, hrest, hscan]
    | @token c b rest kind n ts failure hrest hscan h ih =>
      have hlt := length_advance_lt hrest n
      cases count with
      | zero => omega
      | succ count =>
        rw [tokens, next_of_scan hrest hscan]
        dsimp only
        rw [ih count (by omega)]

/-- The tokens of a whole text. -/
theorem lexes_iff {bytes : List UInt8} :
    (ofBytes bytes).Lexes ts failure ↔ tokenize bytes = (ts, failure) := by
  constructor
  · exact fun h => h.tokens_eq (Nat.lt_succ_self _)
  · intro h
    have hlexes := (ofBytes bytes).lexes_tokens (Nat.lt_succ_self bytes.length)
    rwa [← tokenize, h] at hlexes

/-- Elsewhere, a text has tokens that are alike. -/
theorem Lexes.move {c : Cursor} (h : c.Lexes ts failure) (place : Nat) :
    ∃ ts' failure', Lexes ⟨place, c.rest⟩ ts' failure' ∧ List.Forall₂ Token.Alike ts ts' ∧
      (failure = none → failure' = none) := by
  induction h generalizing place with
  | done hrest => exact ⟨[], none, .done hrest, .nil, id⟩
  | unexpected hrest hscan => exact ⟨[], _, .unexpected hrest hscan, .nil, nofun⟩
  | unterminated hrest hscan => exact ⟨[], _, .unterminated hrest hscan, .nil, nofun⟩
  | token hrest hscan h ih =>
    obtain ⟨ts', failure', hts', halike, hfailure⟩ := ih _
    exact ⟨_, failure', .token hrest hscan hts', .cons ⟨rfl, rfl⟩ halike, hfailure⟩

/-! ### Joined texts -/

theorem stop_advance {c : Cursor} (h : n ≤ c.rest.length) :
    (c.advance n).place + (c.advance n).rest.length = c.place + c.rest.length := by
  rw [advance, List.length_drop]
  dsimp only
  omega

theorem stop_skipBlanks (c : Cursor) :
    c.skipBlanks.place + c.skipBlanks.rest.length = c.place + c.rest.length :=
  stop_advance (length_takeWhile_le isSpaceByte c.rest)

/-- The blanks before a token do not depend on what follows it. -/
theorem skipBlanks_append {c : Cursor} (h : c.skipBlanks.rest ≠ []) (v : List UInt8) :
    (⟨c.place, c.rest ++ v⟩ : Cursor).skipBlanks =
      ⟨c.skipBlanks.place, c.skipBlanks.rest ++ v⟩ := by
  rw [skipBlanks, advance] at h
  rw [skipBlanks, skipBlanks, takeWhile_append_of_drop v h, advance, advance,
    (drop_append_of_drop_ne_nil v h).2]

/-- The blanks at the end of a text are followed by those of the next one. -/
theorem skipBlanks_append_of_nil {c : Cursor} (h : c.skipBlanks.rest = []) (v : List UInt8) :
    (⟨c.place, c.rest ++ v⟩ : Cursor).skipBlanks =
      (⟨c.place + c.rest.length, v⟩ : Cursor).skipBlanks := by
  have hself : c.rest.takeWhile isSpaceByte = c.rest :=
    (List.takeWhile_prefix _).eq_of_length_le (List.drop_eq_nil_iff.1 h)
  rw [skipBlanks, skipBlanks, List.takeWhile_append, if_pos (by rw [hself]), List.length_append,
    advance, advance, List.drop_append, List.drop_of_length_le (Nat.le_add_right _ _),
    List.nil_append, Nat.add_sub_cancel_left, Nat.add_assoc]

/-- Of blanks, only where they end matters. -/
theorem Lexes.of_skipBlanks {c c' : Cursor} (h : c.Lexes ts failure)
    (hc : c'.skipBlanks = c.skipBlanks) : c'.Lexes ts failure := by
  cases h with
  | done hrest => exact .done (hc ▸ hrest)
  | token hrest hscan h =>
    rw [← hc] at hrest h ⊢
    exact .token hrest hscan h
  | unexpected hrest hscan =>
    rw [← hc] at hrest ⊢
    exact .unexpected hrest hscan
  | unterminated hrest hscan =>
    rw [← hc] at hrest ⊢
    exact .unterminated hrest hscan

theorem Lexes.eq_nil_of_rest {c : Cursor} (h : c.Lexes ts failure) (hrest : c.rest = []) :
    ts = [] := by
  have hskip : c.skipBlanks.rest = [] := by rw [skipBlanks, advance, hrest, List.drop_nil]
  cases h with
  | token hrest => simp [hskip] at hrest
  | _ => rfl

/-- A point at the end of a text is its last token. -/
theorem Lexes.getLast?_of_point {c : Cursor} (h : c.Lexes ts none) (hrest : c.rest = [b])
    (hb : ascii b = '.') : ∃ t ∈ ts.getLast?, t.kind = .dot := by
  have hspace : isSpaceByte b = false := by
    rw [isSpaceByte, hb]
    decide
  have hskip : c.skipBlanks.rest = [b] := by
    rw [skipBlanks, advance, hrest]
    simp [hspace]
  generalize hnone : (none : Option LexicalError) = o at h
  cases h with
  | done hnil => cases hskip.symm.trans hnil
  | token hcons hscan h =>
    obtain ⟨rfl, rfl⟩ := List.cons.inj (hskip.symm.trans hcons)
    obtain ⟨rfl, rfl⟩ := Scan.token.inj ((scan_point hb []).symm.trans hscan)
    obtain rfl := h.eq_nil_of_rest (by rw [advance, hcons]; rfl)
    exact ⟨_, rfl, rfl⟩
  | unexpected | unterminated => cases hnone

/-- The first token of a text that is cut after a word does not change with what follows. -/
theorem Lexes.scan_append {c : Cursor} (hrest : c.skipBlanks.rest = b :: rest)
    (hscan : scan b rest = .token kind n) (h : (c.skipBlanks.advance (n + 1)).Lexes ts none)
    (hword : ∀ t ∈ (⟨kind, place, b :: rest.take n⟩ :: ts : List Token).getLast?,
      t.kind = .identifier)
    (hv : ∀ b ∈ v.head?, isWordByte b = false) :
    n ≤ rest.length ∧ scan b (rest ++ v) = .token kind n := by
  have hafter : (c.skipBlanks.advance (n + 1)).rest = rest.drop n := by
    rw [advance, hrest, List.drop_succ_cons]
  by_cases hleft : rest.drop n = []
  · -- Nothing follows the token, so it is the last one, and a word.
    obtain rfl := h.eq_nil_of_rest (hafter.trans hleft)
    obtain rfl : kind = .identifier := hword _ rfl
    refine ⟨?_, scan_append_word hscan hleft hv⟩
    rw [(Scan.token.inj (hscan.symm.trans (scan_eq_word hscan rest))).2]
    exact length_takeWhile_le isWordByte rest
  · refine ⟨(drop_append_of_drop_ne_nil v hleft).1,
      PredicateSql.scan_append v hscan hleft fun d hd hpoint => ?_⟩
    obtain ⟨t, ht, hkind⟩ := h.getLast?_of_point (hafter.trans hd) hpoint
    cases (hword t (List.mem_getLast?_cons ht)).symm.trans hkind

/-- The tokens of a text that is cut after a word. -/
theorem Lexes.append {c : Cursor} (h : c.Lexes ts none)
    (hword : ∀ t ∈ ts.getLast?, t.kind = .identifier) (hv : ∀ b ∈ v.head?, isWordByte b = false)
    (hus : Lexes ⟨c.place + c.rest.length, v⟩ us failure) :
    Lexes ⟨c.place, c.rest ++ v⟩ (ts ++ us) failure := by
  generalize hnone : (none : Option LexicalError) = o at h
  induction h with
  | done hrest => exact hus.of_skipBlanks (skipBlanks_append_of_nil hrest v)
  | unexpected | unterminated => cases hnone
  | @token c b rest kind n ts failure' hrest hscan h ih =>
    subst hnone
    obtain ⟨hle, hscan'⟩ := Lexes.scan_append hrest hscan h hword hv
    have hskip := skipBlanks_append (c := c) (by simp [hrest]) v
    have hrest' : (⟨c.place, c.rest ++ v⟩ : Cursor).skipBlanks.rest = b :: (rest ++ v) := by
      rw [hskip, hrest, List.cons_append]
    have hle' : n + 1 ≤ c.skipBlanks.rest.length := by
      rw [hrest, List.length_cons]
      exact Nat.succ_le_succ hle
    have hadvance : (⟨c.place, c.rest ++ v⟩ : Cursor).skipBlanks.advance (n + 1) =
        ⟨(c.skipBlanks.advance (n + 1)).place, (c.skipBlanks.advance (n + 1)).rest ++ v⟩ := by
      rw [hskip, advance, advance, List.drop_append_of_le_length hle']
    have hnext := ih (fun t ht => hword t (List.mem_getLast?_cons ht))
      (by rwa [stop_advance hle', stop_skipBlanks]) rfl
    have htoken := Lexes.token hrest' hscan' (hadvance ▸ hnext)
    rwa [hskip, List.take_append_of_le_length hle] at htoken

end Cursor

end PredicateSql
