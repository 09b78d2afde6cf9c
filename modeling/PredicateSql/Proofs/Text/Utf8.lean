import PredicateSql.Text.Utf8

/-!
# Texts as bytes and back

The bytes of a text are read as that text. A character takes one byte to four: the first one tells
how many, and each of the others gives six bits of the number.

* `encode_ofList`: the bytes of a text are those of its characters.
* `start_two`, `start_three`, `start_four`: what the first byte of a longer character begins.
* `decodeFrom_more`, `decodeFrom_last`: what the other ones go on with.
* `decodeFrom_char`: the bytes of one character, whatever follows them.
* `decode_encode`: the bytes of a text.
-/

namespace PredicateSql.Text.Utf8

/-- The bytes of a text are those of its characters. -/
theorem encode_ofList (text : List Char) :
    encode (.ofList text) = text.flatMap String.utf8EncodeChar := by
  rw [encode, String.toByteArray_ofList, List.utf8Encode, List.toList_data_toByteArray]

/-! ### First bytes -/

theorem start_one : ∀ n < 0x80, start (.ofNat n) = ([.ofNat n], none) := by
  decide

theorem start_two : ∀ n < 0x20, 2 ≤ n →
    start (.ofNat (n + 0xC0)) = ([], some { value := n, needed := 1 }) := by
  decide

/-- The bounds keep out characters that take two bytes, and surrogates. -/
theorem start_three : ∀ n < 0x10, start (.ofNat (n + 0xE0)) =
    ([], some ⟨n, 2, if n = 0 then 0xA0 else 0x80, if n = 0xD then 0x9F else 0xBF⟩) := by
  decide

/-- The bounds keep out characters that take three bytes, and numbers past the last one. -/
theorem start_four : ∀ n < 5, start (.ofNat (n + 0xF0)) =
    ([], some ⟨n, 3, if n = 0 then 0x90 else 0x80, if n = 4 then 0x8F else 0xBF⟩) := by
  decide

/-! ### Characters -/

/-- A byte within the bounds of a sequence gives six bits more. -/
theorem step_tail {p : Pending} {n : Nat} (hn : n < 64) (hlow : p.low.toNat ≤ n + 0x80)
    (hhigh : n + 0x80 ≤ p.high.toNat) :
    step (some p) (.ofNat (n + 0x80)) =
      if p.needed ≤ 1 then ([.ofNat (64 * p.value + n)], none)
      else ([], some { value := 64 * p.value + n, needed := p.needed - 1 }) := by
  have hbyte : (UInt8.ofNat (n + 0x80)).toNat = n + 0x80 := UInt8.toNat_ofNat_of_lt' (by
    show n + 0x80 < 256
    omega)
  have hwithin : p.low ≤ .ofNat (n + 0x80) ∧ .ofNat (n + 0x80) ≤ p.high := by
    rw [UInt8.le_iff_toNat_le, UInt8.le_iff_toNat_le, hbyte]
    exact ⟨hlow, hhigh⟩
  rw [step, if_pos hwithin, hbyte, Nat.add_sub_cancel]

theorem decodeFrom_last {value n : Nat} (hn : n < 64) (rest : List UInt8) :
    decodeFrom (some { value, needed := 1 }) (.ofNat (n + 0x80) :: rest) =
      .ofNat (64 * value + n) :: decodeFrom none rest := by
  have hstep := step_tail (p := { value, needed := 1 }) hn (Nat.le_add_left _ _)
    (by show n + 0x80 ≤ 0xBF; omega)
  rw [decodeFrom, hstep]
  rfl

theorem decodeFrom_more {value needed n : Nat} {low high : UInt8} (hn : n < 64)
    (hlow : low.toNat ≤ n + 0x80) (hhigh : n + 0x80 ≤ high.toNat) (rest : List UInt8) :
    decodeFrom (some ⟨value, needed + 2, low, high⟩) (.ofNat (n + 0x80) :: rest) =
      decodeFrom (some { value := 64 * value + n, needed := needed + 1 }) rest := by
  have hmore : ¬ needed + 2 ≤ 1 := by omega
  rw [decodeFrom, step_tail hn hlow hhigh, if_neg hmore]
  rfl

/-- The first byte of a longer character begins a sequence. -/
theorem decodeFrom_lead {b : UInt8} {p : Pending} (h : start b = ([], some p)) (rest : List UInt8) :
    decodeFrom none (b :: rest) = decodeFrom (some p) rest := by
  rw [decodeFrom, step, h]
  rfl

/-- The bytes of a character are read as it, whatever follows them. -/
theorem decodeFrom_char (c : Char) (rest : List UInt8) :
    decodeFrom none (String.utf8EncodeChar c ++ rest) = c :: decodeFrom none rest := by
  have hchar : .ofNat c.val.toNat = c := Char.ofNat_toNat c
  have hvalid : c.val.toNat < 0xD800 ∨ 0xDFFF < c.val.toNat ∧ c.val.toNat < 0x110000 := c.valid
  unfold String.utf8EncodeChar
  generalize c.val.toNat = v at hchar hvalid
  dsimp only
  split
  · rw [List.singleton_append, decodeFrom, step, start_one v (by omega)]
    simp only [hchar, List.singleton_append]
  split
  · have hlead := start_two (v / 64 % 32) (by omega) (by omega)
    have hvalue : 64 * (v / 64 % 32) + v % 64 = v := by omega
    rw [List.cons_append, decodeFrom_lead hlead, List.singleton_append,
      decodeFrom_last (by omega), hvalue, hchar]
  split
  · have hlead := start_three (v / 4096 % 16) (by omega)
    have hvalue : 64 * (64 * (v / 4096 % 16) + v / 64 % 64) + v % 64 = v := by omega
    have hlow : (if v / 4096 % 16 = 0 then 0xA0 else 0x80 : UInt8).toNat ≤ v / 64 % 64 + 0x80 := by
      split
      · show 0xA0 ≤ _
        omega
      · exact Nat.le_add_left _ _
    have hhigh : v / 64 % 64 + 0x80 ≤ (if v / 4096 % 16 = 0xD then 0x9F else 0xBF : UInt8).toNat := by
      split
      · show _ ≤ 0x9F
        omega
      · show _ ≤ 0xBF
        omega
    rw [List.cons_append, decodeFrom_lead hlead, List.cons_append,
      decodeFrom_more (by omega) hlow hhigh, List.singleton_append, decodeFrom_last (by omega),
      hvalue, hchar]
  · have hlead := start_four (v / 262144 % 8) (by omega)
    have hvalue : 64 * (64 * (64 * (v / 262144 % 8) + v / 4096 % 64) + v / 64 % 64) + v % 64 = v := by
      omega
    have hlow : (if v / 262144 % 8 = 0 then 0x90 else 0x80 : UInt8).toNat ≤
        v / 4096 % 64 + 0x80 := by
      split
      · show 0x90 ≤ _
        omega
      · exact Nat.le_add_left _ _
    have hhigh : v / 4096 % 64 + 0x80 ≤
        (if v / 262144 % 8 = 4 then 0x8F else 0xBF : UInt8).toNat := by
      split
      · show _ ≤ 0x8F
        omega
      · show _ ≤ 0xBF
        omega
    have hnext : v / 64 % 64 + 0x80 ≤ 0xBF := by omega
    rw [List.cons_append, decodeFrom_lead hlead, List.cons_append,
      decodeFrom_more (by omega) hlow hhigh, List.cons_append,
      decodeFrom_more (by omega) (Nat.le_add_left _ _) hnext, List.singleton_append,
      decodeFrom_last (by omega), hvalue, hchar]

/-- The bytes of a text are read as that text. -/
theorem decode_encode (text : String) : decode (encode text) = text := by
  have hdecode : ∀ chars : List Char,
      decodeFrom none (chars.flatMap String.utf8EncodeChar) = chars := by
    intro chars
    induction chars with
    | nil => rfl
    | cons c rest ih => rw [List.flatMap_cons, decodeFrom_char, ih]
  have hencode := encode_ofList text.toList
  rw [String.ofList_toList] at hencode
  rw [decode, hencode, hdecode, String.ofList_toList]

end PredicateSql.Text.Utf8
