/-!
# Decimal text

Numbers are written in decimal, without leading zeros and with a minus sign in front of a negative
one; columns of numbers are aligned to the right.

Every number has a decimal text, but numbers of more than `maxDigits` digits are neither read nor
written: `decimal?` is what comes of a number from outside, or of a sum of such numbers. Places in a
text and sizes of what has been built are written with `decimal`.

* `isWritable_iff`: the numbers that can be written are those between `-largest` and `largest`.
-/

namespace TapeLang.Text

/-- The number of digits that an integer may have to be read or written. -/
def maxDigits : Nat := 4300

/-- The decimal text of an integer. -/
def decimal : Int → String
  | .ofNat n => n.repr
  | .negSucc n => "-" ++ (n + 1).repr

/-- Whether an integer is short enough to be written. -/
def isWritable (n : Int) : Bool := (Nat.toDigits 10 n.natAbs).length ≤ maxDigits

/-- The largest integer that is short enough, all nines. -/
def largest : Nat := Nat.pow 10 maxDigits - 1

/-- The decimal text of an integer, if it is short enough. -/
def decimal? (n : Int) : Option String := if isWritable n then some (decimal n) else none

/-- The complaint about an integer that is too long to be written. -/
def tooLong : String :=
  "Exceeds the limit (" ++ maxDigits.repr ++ " digits) for integer string conversion; " ++
    "use sys.set_int_max_str_digits() to increase the limit"

/-- The text `s`, with blanks in front up to `width` characters. -/
def alignRight (width : Nat) (s : String) : String :=
  String.ofList (List.replicate (width - s.length) ' ') ++ s

theorem isWritable_iff {n : Int} : isWritable n = true ↔ n.natAbs ≤ largest := by
  -- for any number of digits, so that no power is worked out
  have hdigits (k : Nat) (hk : 0 < k) :
      (Nat.toDigits 10 n.natAbs).length ≤ k ↔ n.natAbs ≤ Nat.pow 10 k - 1 := by
    have hpos : 0 < Nat.pow 10 k := Nat.pow_pos (by decide)
    have hlt : (Nat.toDigits 10 n.natAbs).length ≤ k ↔ n.natAbs < Nat.pow 10 k :=
      Nat.length_toDigits_le_iff (by decide) hk
    omega
  rw [isWritable, decide_eq_true_iff, hdigits maxDigits (by decide), largest]

theorem isWritable_mono {m n : Int} (h : m.natAbs ≤ n.natAbs) (hn : isWritable n = true) :
    isWritable m = true :=
  isWritable_iff.2 (Nat.le_trans h (isWritable_iff.1 hn))

end TapeLang.Text
