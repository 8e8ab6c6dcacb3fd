import Mathlib.Data.Nat.Basic
import Mathlib.Tactic.IntervalCases

/- Numerals as bytes of ASCII text, in a base up to sixteen. -/
namespace Numeral

open Option Nat List

def digitChar (digit : Nat) : UInt8 := UInt8.ofNat (if digit < 10 then 48 + digit else 87 + digit)

/-- The letters stand for digits in both cases. -/
def digitValue (c : UInt8) : Option Nat :=
  if 48 ≤ c.toNat ∧ c.toNat ≤ 57 then some (c.toNat - 48)
  else if 97 ≤ c.toNat ∧ c.toNat ≤ 122 then some (c.toNat - 87)
  else if 65 ≤ c.toNat ∧ c.toNat ≤ 90 then some (c.toNat - 55)
  else none

/-- The last `width` digits of a number. -/
def padded (base : Nat) : Nat → Nat → List UInt8
  | 0, _ => []
  | width + 1, n => padded base width (n / base) ++ [digitChar (n % base)]

/-- The number of digits, at least one. -/
def width (base : Nat) : Nat → Nat → Nat
  | 0, _ => 1
  | fuel + 1, n => if n < base then 1 else width base fuel (n / base) + 1

/-- With zeros in front up to a least number of digits. -/
def format (base least n : Nat) : List UInt8 := padded base (max least (width base n n)) n

def parseFrom (base : Nat) : Nat → List UInt8 → Option Nat
  | value, [] => some value
  | value, c :: rest =>
    (digitValue c).bind (fun digit =>
      if digit < base then parseFrom base (value * base + digit) rest else none)

/-- A numeral without a sign. -/
def parseUint (base : Nat) (s : List UInt8) : Option Nat :=
  if s = [] then none else parseFrom base 0 s

/-- A numeral with or without a sign. -/
def parseInt (base : Nat) (s : List UInt8) : Option Int :=
  match s with
  | 43 :: rest => (parseUint base rest).map Int.ofNat
  | 45 :: rest => (parseUint base rest).map (fun n => -Int.ofNat n)
  | s => (parseUint base s).map Int.ofNat

/-- A signed numeral of 64 bits. -/
def parseInt64 (base : Nat) (s : List UInt8) : Option Int :=
  (parseInt base s).filter (fun n => decide (-2 ^ 63 ≤ n ∧ n < 2 ^ 63))

variable {base : Nat}

theorem digitValue_digitChar {digit : Nat} (bound : digit < 16) :
    digitValue (digitChar digit) = some digit := by
  interval_cases digit <;> decide

theorem parseFrom_append (value : Nat) (left right : List UInt8) :
    parseFrom base value (left ++ right) =
      (parseFrom base value left).bind (fun middle => parseFrom base middle right) := by
  induction left generalizing value with
  | nil => rfl
  | cons c rest ih =>
    simp only [cons_append, parseFrom]
    cases digitValue c with
    | none => rfl
    | some digit =>
      simp only [bind_some]
      split
      · exact ih _
      · rfl

@[simp] theorem padded_length (width n : Nat) : (padded base width n).length = width := by
  induction width generalizing n with
  | zero => rfl
  | succ width ih => simp [padded, ih]

section digits

variable (pos : 0 < base) (small : base ≤ 16)
include pos small

theorem parseFrom_padded (width n value : Nat) :
    parseFrom base value (padded base width n) =
      some (value * base ^ width + n % base ^ width) := by
  induction width generalizing n with
  | zero => simp [padded, parseFrom, mod_one]
  | succ width ih =>
    have digit : n % base < base := mod_lt _ pos
    rw [padded, parseFrom_append, ih]
    simp only [bind_some, parseFrom,
      digitValue_digitChar (lt_of_lt_of_le digit small), if_pos digit]
    rw [add_mul, mul_assoc, ← pow_succ, add_assoc, pow_succ',
      mod_mul, mul_comm base (n / base % _), add_comm (n % base)]

theorem parseUint_padded {width n : Nat} (positive : 0 < width) (fits : n < base ^ width) :
    parseUint base (padded base width n) = some n := by
  have nonempty : padded base width n ≠ [] := by
    rw [← length_pos_iff, padded_length]
    exact positive
  rw [parseUint, if_neg nonempty, parseFrom_padded pos small, zero_mul, zero_add, mod_eq_of_lt fits]

theorem digitValue_of_mem_padded {width n : Nat} {c : UInt8} (member : c ∈ padded base width n) :
    ∃ digit < base, digitValue c = some digit := by
  induction width generalizing n with
  | zero => cases member
  | succ width ih =>
    rcases mem_append.mp member with before | last
    · exact ih before
    have digit := mod_lt n pos
    rw [mem_singleton.mp last]
    exact ⟨n % base, digit, digitValue_digitChar (lt_of_lt_of_le digit small)⟩

end digits

theorem width_pos (fuel n : Nat) : 0 < width base fuel n := by
  cases fuel with
  | zero => exact one_pos
  | succ fuel =>
    rw [width]
    split <;> omega

section widths

variable (large : 1 < base)
include large

theorem lt_pow_width {fuel n : Nat} (enough : n ≤ fuel) : n < base ^ width base fuel n := by
  induction fuel generalizing n with
  | zero =>
    obtain rfl : n = 0 := by omega
    rw [width, pow_one]
    omega
  | succ fuel ih =>
    rw [width]
    split
    · rwa [pow_one]
    have smaller : n / base < n := div_lt_self (by omega) large
    have quotient := ih (n := n / base) (by omega)
    rwa [pow_succ, ← div_lt_iff_lt_mul (by omega)]

theorem width_le {fuel n digits : Nat} (pos : 0 < digits) (fits : n < base ^ digits) :
    width base fuel n ≤ digits := by
  induction fuel generalizing n digits with
  | zero => exact pos
  | succ fuel ih =>
    rw [width]
    split
    · exact pos
    obtain ⟨digits, rfl⟩ := exists_eq_succ_of_ne_zero (ne_of_gt pos)
    rw [pow_succ, ← div_lt_iff_lt_mul (by omega)] at fits
    have more : 0 < digits := by
      rcases Nat.eq_zero_or_pos digits with rfl | more
      · rw [Nat.pow_zero, Nat.div_lt_iff_lt_mul (by omega)] at fits
        omega
      · exact more
    exact succ_le_succ (ih more fits)

theorem format_of_fits {least n : Nat} (pos : 0 < least) (fits : n < base ^ least) :
    format base least n = padded base least n := by
  rw [format, max_eq_left (width_le large pos fits)]

theorem parseUint_format (small : base ≤ 16) (least n : Nat) :
    parseUint base (format base least n) = some n := by
  refine parseUint_padded (by omega) small ?_ ?_
  · exact lt_of_lt_of_le (width_pos n n) (le_max_right _ _)
  · exact Nat.lt_of_lt_of_le (lt_pow_width large (Nat.le_refl n))
      (Nat.pow_le_pow_right (by omega) (Nat.le_max_right _ _))

theorem format_inj (small : base ≤ 16) {least n other : Nat}
    (same : format base least n = format base least other) : n = other := by
  have parses := parseUint_format large small least n
  rwa [same, parseUint_format large small, Option.some.injEq, eq_comm] at parses

end widths

/-- No sign is a digit. -/
theorem parseUint_sign {sign : UInt8} (isSign : sign = 43 ∨ sign = 45) (rest : List UInt8) :
    parseUint base (sign :: rest) = none := by
  rcases isSign with rfl | rfl <;> rfl

theorem parseInt_eq_ofNat {n : Nat} {s : List UInt8} :
    parseInt base s = some (Int.ofNat n) ↔ parseUint base s = some n ∨
      parseUint base (s.drop 1) = some n ∧ (s.head? = some 43 ∨ s.head? = some 45 ∧ n = 0) := by
  unfold parseInt
  split
  · rename_i rest
    simp [parseUint_sign]
  · rename_i rest
    rw [map_eq_some_iff, drop_one, tail_cons, head?_cons]
    constructor
    · rintro ⟨m, parses, opposite⟩
      obtain ⟨rfl, rfl⟩ : m = 0 ∧ n = 0 := by simp at opposite; omega
      exact .inr ⟨parses, .inr ⟨rfl, rfl⟩⟩
    · rintro (absent | ⟨parses, other | ⟨-, rfl⟩⟩)
      · simp [parseUint_sign] at absent
      · cases other
      · exact ⟨0, parses, rfl⟩
  · rename_i plus minus
    have unsigned : s.head? ≠ some 43 ∧ s.head? ≠ some 45 := by
      cases s with
      | nil => simp
      | cons c rest => simp_all
    simp [unsigned]

theorem parseInt_of_parseUint {s : List UInt8} {n : Nat} (parses : parseUint base s = some n) :
    parseInt base s = some (Int.ofNat n) := parseInt_eq_ofNat.mpr (.inl parses)

theorem parseInt64_of_parseUint {s : List UInt8} {n : Nat} (parses : parseUint base s = some n)
    (small : n < 2 ^ 63) : parseInt64 base s = some (Int.ofNat n) := by
  rw [parseInt64, parseInt_of_parseUint parses, filter_some, if_pos]
  rw [decide_eq_true_eq]
  constructor <;> simp only [Int.ofNat_eq_natCast] <;> omega

end Numeral
