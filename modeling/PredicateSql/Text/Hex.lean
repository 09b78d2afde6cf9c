/-!
# Hexadecimal digits

* `hexDigit`: the digit of a number below sixteen, in either case of the letters.
* `hexValue?`: the number of a digit, which is read in both cases.
* `hexNumber?`: the number of several digits.
* `hexOfBytes`: two digits for each byte.
-/

namespace PredicateSql.Text

/-- The digit of a number below sixteen. Ten is written as `ten`, and the letters go on from
there. -/
def hexDigit (ten : Char) (n : Nat) : Char :=
  if n < 10 then .ofNat ('0'.toNat + n) else .ofNat (ten.toNat + (n - 10))

/-- The number of a digit. -/
def hexValue? (c : Char) : Option Nat :=
  if '0' ≤ c ∧ c ≤ '9' then some (c.toNat - '0'.toNat)
  else if 'a' ≤ c ∧ c ≤ 'f' then some (c.toNat - 'a'.toNat + 10)
  else if 'A' ≤ c ∧ c ≤ 'F' then some (c.toNat - 'A'.toNat + 10)
  else none

/-- A digit is read back in either case of its letters. -/
theorem hexValue?_hexDigit {ten : Char} (hten : ten = 'a' ∨ ten = 'A') :
    ∀ n < 16, hexValue? (hexDigit ten n) = some n := by
  rcases hten with rfl | rfl <;> decide

/-- The number that digits stand for. -/
def hexNumber? (digits : List Char) : Option Nat :=
  digits.foldlM (fun n c => (hexValue? c).map (16 * n + ·)) 0

/-- Two digits for each byte. -/
def hexOfBytes (ten : Char) (bytes : List UInt8) : String :=
  .ofList (bytes.flatMap fun b => [hexDigit ten (b.toNat / 16), hexDigit ten (b.toNat % 16)])

/-- There are only digits in them. -/
theorem exists_of_mem_hexOfBytes {ten c : Char} {bytes : List UInt8}
    (h : c ∈ (hexOfBytes ten bytes).toList) : ∃ n < 16, c = hexDigit ten n := by
  rw [hexOfBytes, String.toList_ofList, List.mem_flatMap] at h
  obtain ⟨b, -, hc⟩ := h
  have hlt := b.toNat_lt
  rcases List.mem_cons.1 hc with rfl | hc
  · exact ⟨_, by omega, rfl⟩
  · exact ⟨_, by omega, List.mem_singleton.1 hc⟩

end PredicateSql.Text
