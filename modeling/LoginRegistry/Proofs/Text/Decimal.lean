import LoginRegistry.Text.Decimal

/-! # Reading back numerals

    The numeral of a 64-bit number is read back as that number
    (`readInt64?_writeInt64`).
-/

namespace LoginRegistry.Text

theorem isDigit_of_isDigit {c : Char} (h : c.isDigit = true) : isDigit c = true := by
  obtain ⟨hlow, hhigh⟩ := Char.isDigit_iff_toNat.mp h
  rw [isDigit, Bool.and_eq_true, decide_eq_true_iff, decide_eq_true_iff]
  exact ⟨hlow, hhigh⟩

/-- The digits of a number are read back. -/
theorem readNatural?_toDigits (n : Nat) : readNatural? (Nat.toDigits 10 n) = some n := by
  have hne : Nat.toDigits 10 n ≠ [] := Nat.toDigits_ne_nil
  have hall : (Nat.toDigits 10 n).all isDigit = true :=
    List.all_eq_true.mpr fun c hc =>
      isDigit_of_isDigit (Nat.isDigit_of_mem_toDigits (by decide) (by decide) hc)
  rw [readNatural?, if_pos ⟨hne, hall⟩, Nat.ofDigitChars_ten_toDigits]

theorem readInteger?_toDigits (n : Nat) : readInteger? (Nat.toDigits 10 n) = some (n : Int) := by
  have hdigit : ∀ c ∈ Nat.toDigits 10 n, c.isDigit = true := fun c hc =>
    Nat.isDigit_of_mem_toDigits (by decide) (by decide) hc
  unfold readInteger?
  split
  · next cs heq => exact absurd (hdigit '-' (by rw [heq]; exact List.mem_cons_self)) (by decide)
  · next cs heq => exact absurd (hdigit '+' (by rw [heq]; exact List.mem_cons_self)) (by decide)
  · rw [readNatural?_toDigits]
    rfl

/-- The numeral of a 64-bit number is read back. -/
theorem readInt64?_writeInt64 (n : Int64) : readInt64? (writeInt64 n) = some n := by
  have hint : readInteger? (writeInt64 n).toList = some n.toInt := by
    rw [writeInt64, String.toList_ofList]
    split
    · next hneg =>
      rw [readInteger?, readNatural?_toDigits]
      change some (-(n.toInt.natAbs : Int)) = some n.toInt
      congr 1
      omega
    · next hpos =>
      rw [readInteger?_toDigits]
      congr 1
      omega
  have hrange : Int64.minValue.toInt ≤ n.toInt ∧ n.toInt ≤ Int64.maxValue.toInt :=
    ⟨n.minValue_le_toInt, n.toInt_le⟩
  rw [readInt64?, hint, Option.bind_some, if_pos hrange, Int64.ofInt_toInt]

end LoginRegistry.Text
