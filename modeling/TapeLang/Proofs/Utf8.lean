import TapeLang.Text.Utf8

/-!
# UTF-8 and back

The bytes of a character are those that the standard library gives it (`Utf8.encode_toNat`), and the
strict decoder reads them as that character and stands between characters again
(`Utf8.Decoder.foldlM_encode`, by the number of bytes). So it reads any text back
(`Utf8.decode_text`).
-/

namespace TapeLang.Utf8

theorem isScalar_iff (n : Nat) : isScalar n = true ↔ n.isValidChar := by
  simp only [isScalar, Nat.isValidChar, Bool.or_eq_true, Bool.and_eq_true, decide_eq_true_eq]
  omega

/-- A scalar value is in one of the ranges of one to four bytes. -/
theorem length_cases {n : Nat} (h : n.isValidChar) : n < 0x80 ∨ (0x80 ≤ n ∧ n < 0x800) ∨
    (0x800 ≤ n ∧ n < 0x10000 ∧ (n < 0xD800 ∨ 0xDFFF < n)) ∨ 0x10000 ≤ n ∧ n < 0x110000 := by
  unfold Nat.isValidChar at h
  omega

/-! ### Bytes -/

section
variable {n : Nat}

theorem encode_one (h : n < 0x80) : encode n = [UInt8.ofNat n] := if_pos h

theorem encode_two (h : 0x80 ≤ n) (h' : n < 0x800) :
    encode n = [UInt8.ofNat (0xC0 + n / 0x40), continuation n] := by
  rw [encode, if_neg (by omega), if_pos h']

theorem encode_three (h : 0x800 ≤ n) (h' : n < 0x10000) : encode n =
    [UInt8.ofNat (0xE0 + n / 0x1000), continuation (n / 0x40), continuation n] := by
  rw [encode, if_neg (by omega), if_neg (by omega), if_pos h']

theorem encode_four (h : 0x10000 ≤ n) : encode n = [UInt8.ofNat (0xF0 + n / 0x40000),
    continuation (n / 0x1000), continuation (n / 0x40), continuation n] := by
  rw [encode, if_neg (by omega), if_neg (by omega), if_neg (by omega)]

end

theorem continuation_eq (n : Nat) : continuation n = UInt8.ofNat (n % 64 + 128) := by
  rw [continuation, Nat.add_comm]

theorem toNat_continuation (n : Nat) : (continuation n).toNat = 0x80 + n % 0x40 := by
  rw [continuation, UInt8.toNat_ofNat']
  omega

theorem continuation_within {low high : UInt8} {k : Nat} (h : low.toNat ≤ 0x80 + k % 0x40)
    (h' : 0x80 + k % 0x40 ≤ high.toNat) : low ≤ continuation k ∧ continuation k ≤ high := by
  rw [UInt8.le_iff_toNat_le, UInt8.le_iff_toNat_le, toNat_continuation]
  exact ⟨h, h'⟩

/-- **The bytes of a character** are its bytes in the standard library. -/
theorem encode_toNat (c : Char) : encode c.toNat = String.utf8EncodeChar c := by
  have hval : c.val.toNat = c.toNat := rfl
  unfold String.utf8EncodeChar
  simp only [hval]
  rcases length_cases c.valid with h | ⟨h, h'⟩ | ⟨h, h', -⟩ | ⟨h, h'⟩ <;> rw [hval] at h
  · rw [encode_one h, if_pos (by omega)]
  · rw [hval] at h'
    rw [encode_two h h', if_neg (by omega), if_pos (by omega), continuation_eq,
      Nat.mod_eq_of_lt (by omega : c.toNat / 64 < 32), Nat.add_comm]
  · rw [hval] at h'
    rw [encode_three h h', if_neg (by omega), if_neg (by omega), if_pos (by omega), continuation_eq,
      continuation_eq, Nat.mod_eq_of_lt (by omega : c.toNat / 4096 < 16), Nat.add_comm]
  · rw [hval] at h'
    rw [encode_four h, if_neg (by omega), if_neg (by omega), if_neg (by omega), continuation_eq,
      continuation_eq, continuation_eq, Nat.mod_eq_of_lt (by omega : c.toNat / 262144 < 8),
      Nat.add_comm]

/-! ### Leading bytes -/

namespace Partial

variable {n : Nat}

/-- What a byte starts, in numbers. -/
theorem start?_eq (p : Nat) (b : UInt8) : start? p b =
    if b.toNat < 0xC2 then none
    else if b.toNat < 0xE0 then some ⟨p, 1, 0x80, 0xBF, b.toNat % 0x20⟩
    else if b.toNat = 0xE0 then some ⟨p, 2, 0xA0, 0xBF, 0⟩
    else if b.toNat = 0xED then some ⟨p, 2, 0x80, 0x9F, 0xD⟩
    else if b.toNat < 0xF0 then some ⟨p, 2, 0x80, 0xBF, b.toNat % 0x10⟩
    else if b.toNat = 0xF0 then some ⟨p, 3, 0x90, 0xBF, 0⟩
    else if b.toNat < 0xF4 then some ⟨p, 3, 0x80, 0xBF, b.toNat % 0x08⟩
    else if b.toNat = 0xF4 then some ⟨p, 3, 0x80, 0x8F, 4⟩
    else none := by
  simp only [start?, UInt8.lt_iff_toNat_lt, ← UInt8.toNat_inj]
  rfl

theorem start?_two (p : Nat) (h : 0x80 ≤ n) (h' : n < 0x800) :
    start? p (UInt8.ofNat (0xC0 + n / 0x40)) = some ⟨p, 1, 0x80, 0xBF, n / 0x40⟩ := by
  have hb : (UInt8.ofNat (0xC0 + n / 0x40)).toNat = 0xC0 + n / 0x40 := by
    rw [UInt8.toNat_ofNat']
    omega
  rw [start?_eq, hb, if_neg (by omega), if_pos (by omega)]
  congr 2
  omega

/-- The range of the second byte lets the second of three bytes through. -/
theorem start?_three (p : Nat) (h : 0x800 ≤ n) (h' : n < 0x10000)
    (scalar : n < 0xD800 ∨ 0xDFFF < n) :
    ∃ low high, start? p (UInt8.ofNat (0xE0 + n / 0x1000)) = some ⟨p, 2, low, high, n / 0x1000⟩ ∧
      low ≤ continuation (n / 0x40) ∧ continuation (n / 0x40) ≤ high := by
  have hb : (UInt8.ofNat (0xE0 + n / 0x1000)).toNat = 0xE0 + n / 0x1000 := by
    rw [UInt8.toNat_ofNat']
    omega
  rw [start?_eq, hb, if_neg (by omega), if_neg (by omega)]
  by_cases hfirst : n < 0x1000
  · rw [if_pos (by omega)]
    refine ⟨0xA0, 0xBF, by congr 2; omega, continuation_within ?_ ?_⟩
    · show 0xA0 ≤ _
      omega
    · show _ ≤ 0xBF
      omega
  by_cases hlast : 0xD000 ≤ n ∧ n < 0xE000
  · rw [if_neg (by omega), if_pos (by omega)]
    refine ⟨0x80, 0x9F, by congr 2; omega, continuation_within ?_ ?_⟩
    · show 0x80 ≤ _
      omega
    · show _ ≤ 0x9F
      omega
  · rw [if_neg (by omega), if_neg (by omega), if_pos (by omega)]
    refine ⟨0x80, 0xBF, by congr 2; omega, continuation_within ?_ ?_⟩
    · show 0x80 ≤ _
      omega
    · show _ ≤ 0xBF
      omega

/-- The range of the second byte lets the second of four bytes through. -/
theorem start?_four (p : Nat) (h : 0x10000 ≤ n) (h' : n < 0x110000) :
    ∃ low high, start? p (UInt8.ofNat (0xF0 + n / 0x40000)) = some ⟨p, 3, low, high, n / 0x40000⟩ ∧
      low ≤ continuation (n / 0x1000) ∧ continuation (n / 0x1000) ≤ high := by
  have hb : (UInt8.ofNat (0xF0 + n / 0x40000)).toNat = 0xF0 + n / 0x40000 := by
    rw [UInt8.toNat_ofNat']
    omega
  rw [start?_eq, hb, if_neg (by omega), if_neg (by omega), if_neg (by omega), if_neg (by omega),
    if_neg (by omega)]
  by_cases hfirst : n < 0x40000
  · rw [if_pos (by omega)]
    refine ⟨0x90, 0xBF, by congr 2; omega, continuation_within ?_ ?_⟩
    · show 0x90 ≤ _
      omega
    · show _ ≤ 0xBF
      omega
  by_cases hlast : n < 0x100000
  · rw [if_neg (by omega), if_pos (by omega)]
    refine ⟨0x80, 0xBF, by congr 2; omega, continuation_within ?_ ?_⟩
    · show 0x80 ≤ _
      omega
    · show _ ≤ 0xBF
      omega
  · rw [if_neg (by omega), if_neg (by omega), if_pos (by omega)]
    refine ⟨0x80, 0x8F, by congr 2; omega, continuation_within ?_ ?_⟩
    · show 0x80 ≤ _
      omega
    · show _ ≤ 0x8F
      omega

end Partial

/-! ### Decoding -/

namespace Decoder

variable {position first m value : Nat} {chars : Array Char} {low high b : UInt8}

theorem step_one {n : Nat} (h : n < 0x80) : step ⟨position, chars, none⟩ (UInt8.ofNat n) =
    .ok ⟨position + 1, chars.push (Char.ofNat n), none⟩ := by
  have hb : (UInt8.ofNat n).toNat = n := by
    rw [UInt8.toNat_ofNat']
    omega
  have hlt : UInt8.ofNat n < 0x80 := by
    rw [UInt8.lt_iff_toNat_lt, hb]
    exact h
  simp only [step, if_pos hlt, hb]

theorem step_start {s : Partial} (h : Partial.start? position b = some s) :
    step ⟨position, chars, none⟩ b = .ok ⟨position + 1, chars, some s⟩ := by
  have hge : ¬ b < 0x80 := by
    intro hlt
    have hnone : Partial.start? position b = none := by
      rw [Partial.start?_eq, if_pos]
      rw [UInt8.lt_iff_toNat_lt] at hlt
      exact Nat.lt_trans hlt (by decide)
    rw [hnone] at h
    cases h
  simp only [step, if_neg hge, h]

/-- A byte that continues a sequence, with more to come. -/
theorem step_inner {k : Nat} (h : low ≤ continuation k ∧ continuation k ≤ high)
    (hvalue : value = k / 0x40) :
    step ⟨position, chars, some ⟨first, m + 2, low, high, value⟩⟩ (continuation k) =
      .ok ⟨position + 1, chars, some ⟨first, m + 1, 0x80, 0xBF, k⟩⟩ := by
  have hbits : value * 0x40 + (continuation k).toNat % 0x40 = k := by
    rw [toNat_continuation]
    omega
  simp only [step, if_pos h, hbits]
  rfl

/-- The last byte of a sequence. -/
theorem step_last {k : Nat} (h : low ≤ continuation k ∧ continuation k ≤ high)
    (hvalue : value = k / 0x40) :
    step ⟨position, chars, some ⟨first, 1, low, high, value⟩⟩ (continuation k) =
      .ok ⟨position + 1, chars.push (Char.ofNat k), none⟩ := by
  have hbits : value * 0x40 + (continuation k).toNat % 0x40 = k := by
    rw [toNat_continuation]
    omega
  simp only [step, if_pos h, hbits]
  rfl

/-- **The bytes of a character are read as that character**, whatever was read before. -/
theorem foldlM_encode (position : Nat) (chars : Array Char) (c : Char) :
    (encode c.toNat).foldlM step ⟨position, chars, none⟩ =
      .ok ⟨position + (encode c.toNat).length, chars.push c, none⟩ := by
  have hany : ∀ k, 0x80 ≤ continuation k ∧ continuation k ≤ 0xBF := by
    intro k
    refine continuation_within ?_ ?_
    · show 0x80 ≤ _
      omega
    · show _ ≤ 0xBF
      omega
  have hvalid : c.toNat.isValidChar := c.valid
  have hc : Char.ofNat c.toNat = c := Char.ofNat_toNat c
  generalize c.toNat = n at hvalid hc ⊢
  rcases length_cases hvalid with h | ⟨h, h'⟩ | ⟨h, h', scalar⟩ | ⟨h, h'⟩
  · simp only [encode_one h, List.foldlM_cons, List.foldlM_nil, step_one h, hc]
    rfl
  · have hlead := Partial.start?_two position h h'
    simp only [encode_two h h', List.foldlM_cons, List.foldlM_nil, step_start hlead, bind,
      Except.bind, step_last (hany n) rfl, hc]
    rfl
  · obtain ⟨low, high, hlead, hrange⟩ := Partial.start?_three position h h' scalar
    simp only [encode_three h h', List.foldlM_cons, List.foldlM_nil, step_start hlead, bind,
      Except.bind, step_inner hrange (by omega : n / 0x1000 = n / 0x40 / 0x40),
      step_last (hany n) rfl, hc]
    rfl
  · obtain ⟨low, high, hlead, hrange⟩ := Partial.start?_four position h h'
    simp only [encode_four h, List.foldlM_cons, List.foldlM_nil, step_start hlead, bind,
      Except.bind, step_inner hrange (by omega : n / 0x40000 = n / 0x1000 / 0x40),
      step_inner (hany (n / 0x40)) (by omega : n / 0x1000 = n / 0x40 / 0x40),
      step_last (hany n) rfl, hc]
    rfl

theorem foldlM_text (text : List Char) : ∀ (position : Nat) (chars : Array Char),
    ∃ position', (text.flatMap String.utf8EncodeChar).foldlM step ⟨position, chars, none⟩ =
      .ok ⟨position', chars ++ text.toArray, none⟩ := by
  induction text with
  | nil => exact fun position chars => ⟨position, by rw [Array.append_empty]; rfl⟩
  | cons c text ih =>
    intro position chars
    obtain ⟨position', h⟩ := ih (position + (encode c.toNat).length) (chars.push c)
    refine ⟨position', ?_⟩
    rw [List.flatMap_cons, List.foldlM_append, ← encode_toNat, foldlM_encode]
    refine h.trans ?_
    rw [Array.push_eq_append, Array.append_assoc, List.toArray_cons c text]

end Decoder

/-- **A text is read back from its bytes.** -/
theorem decode_text (text : List Char) :
    decode (text.flatMap String.utf8EncodeChar) = .ok text := by
  obtain ⟨position, h⟩ := Decoder.foldlM_text text 0 #[]
  rw [decode, h]
  show Except.ok (#[] ++ text.toArray).toList = _
  rw [Array.empty_append]

end TapeLang.Utf8
