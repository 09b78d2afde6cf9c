import PredicateSql.Proofs.Lambda.Lexing
import PredicateSql.Proofs.Text.Utf8

/-!
# Text literals

A text that is written as a literal is read back as it is. The tokens are found among bytes, and the
escapes are read among characters; both agree because no byte of a character outside ASCII is the
byte of a quote or of a backslash.

* `escapedLiteral`, `verbatimLiteral`: the two ways to write a text.
* `escapedLength_escaped`, `verbatimLength_doubled`: a literal ends at its closing quote.
* `unescape?_escaped`: what is escaped is read back.
* `Cursor.next_of_scan_append`: the token at the start of a text, and the place after it.
* `Grammar.IsReadAs`: a literal is one token, and this token is the constant of a text.
* `Grammar.literals_readAs`: both ways to write a text are read as it.
-/

namespace PredicateSql

open Text.Utf8 (encode encode_ofList decode_encode)

/-! ### Written texts -/

/-- A character within quotes. -/
def escaped : Char → List Char
  | '\\' => ['\\', '\\']
  | '"' => ['\\', '"']
  | '\n' => ['\\', 'n']
  | '\t' => ['\\', 't']
  | '\r' => ['\\', 'r']
  | '\x00' => ['\\', '0']
  | c => [c]

/-- A text between quotes, with escapes. -/
def escapedLiteral (text : String) : String :=
  .ofList ('"' :: (text.toList.flatMap escaped ++ ['"']))

/-- A text between quotes, with doubled quotes. -/
def verbatimLiteral (text : String) : String :=
  .ofList ('@' :: '"' :: (Text.doubled '"' text.toList ++ ['"']))

/-- A character is left alone, or a backslash and an ASCII character are written for it. -/
theorem escaped_cases (c : Char) :
    (escaped c = [c] ∧ c ≠ '\\' ∧ c ≠ '"') ∨
      ∃ letter, escaped c = ['\\', letter] ∧ letter.toNat < 128 ∧ letter ≠ 'u' ∧
        escapeChar? letter = some c := by
  unfold escaped
  split
  case h_7 hbackslash hquote _ _ _ _ => exact .inl ⟨rfl, hbackslash, hquote⟩
  all_goals exact .inr ⟨_, rfl, by decide, by decide, rfl⟩

/-! ### Bytes of characters -/

theorem toNat_ascii (b : UInt8) : (ascii b).toNat = b.toNat := by
  have hvalid : b.toNat.isValidChar := .inl (by have := b.toNat_lt; omega)
  rw [ascii, Char.ofNat, dif_pos hvalid]
  rfl

/-- A byte of a character is its number, or stands outside ASCII. -/
theorem toNat_of_mem_utf8EncodeChar {b : UInt8} {c : Char} (hb : b ∈ String.utf8EncodeChar c) :
    b.toNat = c.toNat ∨ 128 ≤ b.toNat := by
  have hbyte : ∀ n < 256, (UInt8.ofNat n).toNat = n := fun n hn => UInt8.toNat_ofNat_of_lt' hn
  have htail : ∀ n, 128 ≤ (UInt8.ofNat (n % 64 + 128)).toNat := by
    intro n
    rw [hbyte _ (by omega)]
    omega
  have hlead : ∀ n, 192 ≤ n → n < 256 → 128 ≤ (UInt8.ofNat n).toNat := by
    intro n hle hlt
    rw [hbyte n hlt]
    omega
  unfold String.utf8EncodeChar at hb
  have hv : c.toNat = c.val.toNat := rfl
  rw [hv]
  generalize c.val.toNat = v at hb
  dsimp only at hb
  split at hb
  · obtain rfl := List.mem_singleton.1 hb
    exact .inl (hbyte v (by omega))
  · right
    split_ifs at hb <;> simp only [List.mem_cons, List.not_mem_nil, or_false] at hb
    · rcases hb with rfl | rfl
      · exact hlead _ (by omega) (by omega)
      · exact htail _
    · rcases hb with rfl | rfl | rfl
      · exact hlead _ (by omega) (by omega)
      · exact htail _
      · exact htail _
    · rcases hb with rfl | rfl | rfl | rfl
      · exact hlead _ (by omega) (by omega)
      · exact htail _
      · exact htail _
      · exact htail _

/-- The byte of an ASCII character is no byte of any other one. -/
theorem eq_of_mem_utf8EncodeChar {b : UInt8} {c d : Char} (hb : b ∈ String.utf8EncodeChar c)
    (hd : d.toNat < 128) (h : ascii b = d) : c = d := by
  have hnat : b.toNat = d.toNat := by rw [← toNat_ascii, h]
  obtain hc | hlarge := toNat_of_mem_utf8EncodeChar hb
  · exact Char.toNat_inj.1 (by omega)
  · omega

/-- An ASCII character takes one byte. -/
theorem utf8EncodeChar_ascii {c : Char} (h : c.toNat < 128) :
    ∃ b, String.utf8EncodeChar c = [b] ∧ ascii b = c := by
  have hv : c.val.toNat = c.toNat := rfl
  refine ⟨.ofNat c.toNat, ?_, ?_⟩
  · unfold String.utf8EncodeChar
    rw [hv, if_pos (by omega)]
  · have hbyte : (UInt8.ofNat c.toNat).toNat = c.toNat := UInt8.toNat_ofNat_of_lt' (by
      show c.toNat < 256
      omega)
    rw [ascii, hbyte, Char.ofNat_toNat]

/-! ### Lengths -/

section Lengths

variable {quote : Char} {b d : UInt8} {rest : List UInt8}

theorem escapedLength_cons (hbackslash : ascii b ≠ '\\') (hquote : ascii b ≠ quote) :
    escapedLength quote (b :: rest) = (escapedLength quote rest).map (· + 1) := by
  rw [escapedLength.eq_def]
  simp [hbackslash, hquote]

theorem escapedLength_escape (h : ascii b = '\\') :
    escapedLength quote (b :: d :: rest) = (escapedLength quote rest).map (· + 2) := by
  rw [escapedLength, h]
  rfl

theorem verbatimLength_cons (hquote : ascii b ≠ quote) :
    verbatimLength quote (b :: rest) = (verbatimLength quote rest).map (· + 1) := by
  rw [verbatimLength.eq_def]
  simp [hquote]

theorem verbatimLength_double (h : ascii b = quote) (h' : ascii d = quote) :
    verbatimLength quote (b :: d :: rest) = (verbatimLength quote rest).map (· + 2) := by
  rw [verbatimLength, h, h']
  simp

theorem escapedLength_plain {bytes : List UInt8}
    (h : ∀ d ∈ bytes, ascii d ≠ '\\' ∧ ascii d ≠ quote) :
    escapedLength quote (bytes ++ rest) = (escapedLength quote rest).map (· + bytes.length) := by
  induction bytes with
  | nil => simp
  | cons d bytes ih =>
    obtain ⟨hbackslash, hquote⟩ := h d List.mem_cons_self
    have hrest := ih fun d hd => h d (List.mem_cons_of_mem _ hd)
    rw [List.cons_append, escapedLength_cons hbackslash hquote, hrest, Option.map_map,
      List.length_cons]
    rfl

theorem verbatimLength_plain {bytes : List UInt8} (h : ∀ d ∈ bytes, ascii d ≠ quote) :
    verbatimLength quote (bytes ++ rest) = (verbatimLength quote rest).map (· + bytes.length) := by
  induction bytes with
  | nil => simp
  | cons d bytes ih =>
    have hrest := ih fun d hd => h d (List.mem_cons_of_mem _ hd)
    rw [List.cons_append, verbatimLength_cons (h d List.mem_cons_self), hrest, Option.map_map,
      List.length_cons]
    rfl

/-- No escaped character closes a literal. -/
theorem escapedLength_escaped (text : List Char) :
    escapedLength '"' ((text.flatMap escaped).flatMap String.utf8EncodeChar ++ rest) =
      (escapedLength '"' rest).map
        (· + ((text.flatMap escaped).flatMap String.utf8EncodeChar).length) := by
  induction text with
  | nil => simp
  | cons c text ih =>
    rw [List.flatMap_cons, List.flatMap_append, List.append_assoc, List.length_append]
    obtain ⟨hc, hbackslash, hquote⟩ | ⟨letter, hc, hletter, -⟩ := escaped_cases c
    · have hplain : ∀ d ∈ String.utf8EncodeChar c, ascii d ≠ '\\' ∧ ascii d ≠ '"' := by
        intro d hd
        exact ⟨fun h => hbackslash (eq_of_mem_utf8EncodeChar hd (by decide) h),
          fun h => hquote (eq_of_mem_utf8EncodeChar hd (by decide) h)⟩
      rw [hc, List.flatMap_singleton, escapedLength_plain hplain, ih, Option.map_map]
      congr 1
      funext n
      show n + _ + _ = n + (_ + _)
      omega
    · obtain ⟨b, hb, hbackslash⟩ := utf8EncodeChar_ascii (c := '\\') (by decide)
      obtain ⟨d, hd, -⟩ := utf8EncodeChar_ascii hletter
      rw [hc, List.flatMap_cons, List.flatMap_singleton, hb, hd, List.singleton_append,
        List.cons_append, List.singleton_append, escapedLength_escape hbackslash, ih,
        Option.map_map]
      congr 1
      funext n
      show n + _ + 2 = n + (2 + _)
      omega

/-- No doubled quote closes a literal. -/
theorem verbatimLength_doubled (hquote : quote.toNat < 128) (text : List Char) :
    verbatimLength quote ((Text.doubled quote text).flatMap String.utf8EncodeChar ++ rest) =
      (verbatimLength quote rest).map
        (· + ((Text.doubled quote text).flatMap String.utf8EncodeChar).length) := by
  induction text with
  | nil => simp [Text.doubled]
  | cons c text ih =>
    by_cases hc : c = quote
    · obtain ⟨b, hb, hascii⟩ := utf8EncodeChar_ascii hquote
      rw [Text.doubled, if_pos hc, hc, List.flatMap_cons, List.flatMap_cons, hb,
        List.singleton_append, List.singleton_append, List.cons_append, List.cons_append,
        verbatimLength_double hascii hascii, ih, Option.map_map]
      rfl
    · have hplain : ∀ d ∈ String.utf8EncodeChar c, ascii d ≠ quote :=
        fun d hd h => hc (eq_of_mem_utf8EncodeChar hd hquote h)
      rw [Text.doubled, if_neg hc, List.flatMap_cons, List.append_assoc,
        verbatimLength_plain hplain, ih, Option.map_map, List.length_append]
      congr 1
      funext n
      show n + _ + _ = n + (_ + _)
      omega

/-- A literal with escapes ends at its closing quote. -/
theorem escapedLength_literal (text : List Char) (r : List UInt8) :
    escapedLength '"' (encode (.ofList (text.flatMap escaped)) ++ 34 :: r) =
      some ((encode (.ofList (text.flatMap escaped))).length + 1) := by
  have hquote : escapedLength '"' (34 :: r) = some 1 := by
    rw [escapedLength.eq_def]
    rfl
  rw [encode_ofList, escapedLength_escaped, hquote, Option.map_some, Nat.add_comm]

/-- A literal with doubled quotes ends at its closing quote, if no quote follows it. -/
theorem verbatimLength_literal (text : List Char) {r : List UInt8} (hr : r.head? ≠ some 34) :
    verbatimLength '"' (encode (.ofList (Text.doubled '"' text)) ++ 34 :: r) =
      some ((encode (.ofList (Text.doubled '"' text))).length + 1) := by
  have hquote : verbatimLength '"' (34 :: r) = some 1 := by
    cases r with
    | nil => rfl
    | cons d r =>
      have hd : ascii d ≠ '"' := by
        intro h
        have hnat : d.toNat = 34 := by
          rw [← toNat_ascii, h]
          rfl
        obtain rfl : d = 34 := UInt8.toNat_inj.1 hnat
        exact hr rfl
      have hopen : (ascii 34 == '"') = true := by decide
      rw [verbatimLength, if_pos hopen, if_neg (by simpa using hd)]
  rw [encode_ofList, verbatimLength_doubled (by decide), hquote, Option.map_some, Nat.add_comm]

end Lengths

/-! ### Escapes -/

theorem unescape?_cons {c : Char} (hc : c ≠ '\\') (rest : List Char) :
    unescape? (c :: rest) = (unescape? rest).map (c :: ·) := by
  simp [unescape?, hc]

theorem unescape?_escape {letter : Char} (hletter : letter ≠ 'u') (rest : List Char) :
    unescape? ('\\' :: letter :: rest) =
      (escapeChar? letter).bind fun e => (unescape? rest).map (e :: ·) := by
  simp [unescape?, hletter]

/-- What is escaped is read back. -/
theorem unescape?_escaped (text : List Char) : unescape? (text.flatMap escaped) = some text := by
  induction text with
  | nil => rfl
  | cons c text ih =>
    rw [List.flatMap_cons]
    obtain ⟨hc, hbackslash, -⟩ | ⟨letter, hc, -, hletter, hescape⟩ := escaped_cases c
    · rw [hc, List.singleton_append, unescape?_cons hbackslash, ih]
      rfl
    · rw [hc, List.cons_append, List.singleton_append, unescape?_escape hletter, hescape, ih]
      rfl

/-! ### Tokens -/

/-- The token that a cursor is at, and the place after it. -/
theorem Cursor.next_of_scan_append {place : Nat} {b : UInt8} {body r : List UInt8}
    {kind : TokenKind} (hb : isSpaceByte b = false)
    (hscan : scan b (body ++ r) = .token kind body.length) :
    (⟨place, b :: body ++ r⟩ : Cursor).next =
      (.ok (some ⟨kind, place, b :: body⟩), ⟨place + (b :: body).length, r⟩) := by
  have hskip : (⟨place, b :: body ++ r⟩ : Cursor).skipBlanks = ⟨place, b :: (body ++ r)⟩ := by
    simp [skipBlanks, advance, hb]
  have hnext := next_of_scan (c := ⟨place, b :: body ++ r⟩) (by rw [hskip]) hscan
  rw [hnext, hskip, List.take_left, advance, List.drop_succ_cons, List.drop_left]
  rfl

namespace Grammar

/-- A literal before `r` is one token, which ends where the literal does. The token has the
characters `contents`, and as an operand it is the constant of a text. -/
structure IsReadAs (g : Grammar) (kind : TokenKind) (literal : String) (r : List UInt8)
    (contents : List Char) (text : String) : Prop where
  next : ∀ place, (⟨place, encode literal ++ r⟩ : Cursor).next =
    (.ok (some ⟨kind, place, encode literal⟩), ⟨place + (encode literal).length, r⟩)
  text_eq : ∀ place, Token.text ⟨kind, place, encode literal⟩ = .ofList contents
  operand : ∀ place sub rest, (g.operand sub).run (⟨kind, place, encode literal⟩ :: rest) =
    .ok (.ofValue (.string text), rest)

variable {g : Grammar} {sub : Nat → Parser Expr} {t : Token} {rest : List Token}

theorem run_operand_string (hkind : t.kind = .string) {text : List Char}
    (h : unescape? t.text.toList = some text) :
    (g.operand sub).run (t :: rest) = .ok (.ofValue (.string (.ofList text)), rest) := by
  rw [operand, Parser.run_bind_of_eq run_next_cons, hkind]
  show (string t).run rest = _
  rw [string, h]
  rfl

theorem run_operand_verbatim (hkind : t.kind = .verbatimString) :
    (g.operand sub).run (t :: rest) =
      .ok (.ofValue (.string (.ofList (unescapeVerbatim t.text.toList))), rest) := by
  rw [operand, Parser.run_bind_of_eq run_next_cons, hkind]
  rfl

/-- A text with escapes is read back as it is. -/
theorem escapedLiteral_readAs (g : Grammar) (text : String) (r : List UInt8) :
    g.IsReadAs .string (escapedLiteral text) r (text.toList.flatMap escaped) text := by
  have hbytes : encode (escapedLiteral text) =
      34 :: (encode (.ofList (text.toList.flatMap escaped)) ++ [34]) := by
    rw [escapedLiteral, encode_ofList, encode_ofList, List.flatMap_cons, List.flatMap_append]
    rfl
  have htext : ∀ place, Token.text ⟨.string, place, encode (escapedLiteral text)⟩ =
      .ofList (text.toList.flatMap escaped) := by
    intro place
    rw [Token.text, Token.contents, hbytes]
    simp [Token.opening, Token.closing, decode_encode]
  refine ⟨fun place => ?_, htext, fun place sub rest => ?_⟩
  · rw [hbytes]
    refine Cursor.next_of_scan_append (by decide) ?_
    rw [List.append_assoc, List.length_append]
    show Scan.literal .string (escapedLength '"' (_ ++ 34 :: r)) = _
    rw [escapedLength_literal]
    rfl
  · have hread : unescape? (Token.text ⟨.string, place, encode (escapedLiteral text)⟩).toList =
        some text.toList := by
      rw [htext, String.toList_ofList, unescape?_escaped]
    rw [run_operand_string rfl hread, String.ofList_toList]

/-- A text with doubled quotes is read back as it is, if no quote follows it. -/
theorem verbatimLiteral_readAs (g : Grammar) (text : String) {r : List UInt8}
    (hr : r.head? ≠ some 34) :
    g.IsReadAs .verbatimString (verbatimLiteral text) r (Text.doubled '"' text.toList) text := by
  have hbytes : encode (verbatimLiteral text) =
      64 :: 34 :: (encode (.ofList (Text.doubled '"' text.toList)) ++ [34]) := by
    rw [verbatimLiteral, encode_ofList, encode_ofList, List.flatMap_cons, List.flatMap_cons,
      List.flatMap_append]
    rfl
  have htext : ∀ place, Token.text ⟨.verbatimString, place, encode (verbatimLiteral text)⟩ =
      .ofList (Text.doubled '"' text.toList) := by
    intro place
    rw [Token.text, Token.contents, hbytes]
    simp [Token.opening, Token.closing, decode_encode]
  refine ⟨fun place => ?_, htext, fun place sub rest => ?_⟩
  · rw [hbytes]
    refine Cursor.next_of_scan_append (by decide) ?_
    rw [List.cons_append, List.append_assoc, List.length_cons, List.length_append]
    show Scan.literal .verbatimString ((verbatimLength '"' (_ ++ 34 :: r)).map (· + 1)) = _
    rw [verbatimLength_literal text.toList hr]
    rfl
  · rw [run_operand_verbatim rfl, htext, String.toList_ofList, unescapeVerbatim,
      Text.undoubled_doubled, String.ofList_toList]

/-- Both ways to write a text as a literal are read back as that text. What follows a literal with
doubled quotes must not begin with a quote. -/
theorem literals_readAs (g : Grammar) (text : String) (r : List UInt8) :
    g.IsReadAs .string (escapedLiteral text) r (text.toList.flatMap escaped) text ∧
      (r.head? ≠ some 34 →
        g.IsReadAs .verbatimString (verbatimLiteral text) r (Text.doubled '"' text.toList) text) :=
  ⟨g.escapedLiteral_readAs text r, g.verbatimLiteral_readAs text⟩

/-- A text with a quote, a backslash, a line break and a character outside ASCII, before a closing
parenthesis. -/
theorem literals_readAs_mixed :
    let text := "é\\ \"n\n"
    let r := encode ")"
    escapedLiteral text = "\"é\\\\ \\\"n\\n\"" ∧ verbatimLiteral text = "@\"é\\ \"\"n\n\"" ∧
      r.head? ≠ some 34 ∧
      (default : Grammar).IsReadAs .string (escapedLiteral text) r
        (text.toList.flatMap escaped) text ∧
      (default : Grammar).IsReadAs .verbatimString (verbatimLiteral text) r
        (Text.doubled '"' text.toList) text := by
  intro text r
  have hr : r.head? ≠ some 34 := by decide
  have hescaped : escapedLiteral text = "\"é\\\\ \\\"n\\n\"" := by decide
  have hdoubled : verbatimLiteral text = "@\"é\\ \"\"n\n\"" := by decide
  have hread := literals_readAs default text r
  exact ⟨hescaped, hdoubled, hr, hread.1, hread.2 hr⟩

end Grammar

end PredicateSql
