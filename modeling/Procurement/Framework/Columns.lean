/-
  Procurement.Framework.Columns
  ─────────────────────────────
  **COLUMN TYPES.**

  A column is given a value and holds one, or refuses it (`none`).  Integers of
  four bytes, texts and texts of bounded length are held as they are.  A
  `NUMERIC(p, s)` holds a number of units of `10 ^ -s`, to which it rounds what
  it is given; a number of such units that has at most `p` digits is held as it
  is (`numeric_units`).

  The length of a text is its number of characters, and no text has the
  character with code zero.
-/
import Mathlib.Algebra.Order.Ring.Abs
import Mathlib.Data.Rat.Floor
import Mathlib.Tactic.FieldSimp
import Mathlib.Tactic.Linarith

namespace Procurement.Framework

variable {α β : Type}

/-! ## §1. Holding a value or refusing it. -/

/-- The value, when it is one of the column's. -/
def keep (p : α → Prop) [DecidablePred p] (v : α) : Option α := if p v then some v else none

/-- The column holds the values with `p`, each as it is, and no others. -/
def Holds (p : α → Prop) (column : α → Option α) : Prop := ∀ v w, column v = some w ↔ p v ∧ w = v

/-- A column that keeps what fits holds exactly that. -/
theorem holds_keep (p : α → Prop) [DecidablePred p] : Holds p (keep p) := by
  intro v w
  unfold keep
  by_cases h : p v
  · simp [h, eq_comm]
  · simp [h]

/-- A row whose first column holds its value. -/
theorem Holds.bind {p : α → Prop} {column : α → Option α} (h : Holds p column) {v : α}
    {k : α → Option β} {b : β} : (column v).bind k = some b ↔ p v ∧ k v = some b := by
  constructor
  · intro hb
    obtain ⟨w, hw, hk⟩ := Option.bind_eq_some_iff.mp hb
    obtain ⟨hp, rfl⟩ := (h v w).mp hw
    exact ⟨hp, hk⟩
  · intro hb
    exact Option.bind_eq_some_iff.mpr ⟨v, (h v v).mpr ⟨hb.1, rfl⟩, hb.2⟩

/-- A column that may be null. -/
def nullable (column : α → Option α) : Option α → Option (Option α)
  | none => some none
  | some v => (column v).map some

/-- A column that may be null holds what the column holds. -/
theorem Holds.nullable {p : α → Prop} {column : α → Option α} (h : Holds p column) :
    Holds (fun v : Option α => ∀ a ∈ v, p a) (Framework.nullable column) := by
  intro v w
  cases v with
  | none => simp [Framework.nullable, eq_comm]
  | some v =>
      unfold Framework.nullable
      rw [Option.map_eq_some_iff]
      constructor
      · intro hw
        obtain ⟨u, hu, rfl⟩ := hw
        obtain ⟨hp, rfl⟩ := (h v u).mp hu
        exact ⟨by simpa using hp, rfl⟩
      · intro hw
        exact ⟨v, (h v v).mpr ⟨hw.1 v rfl, rfl⟩, hw.2.symm⟩

/-! ## §2. Integers and texts. -/

/-- `INTEGER`: four bytes, signed. -/
def IsInteger (n : ℤ) : Prop := -2 ^ 31 ≤ n ∧ n < 2 ^ 31

def IsText (s : String) : Prop := ∀ c ∈ s.toList, c.toNat ≠ 0

def IsVarchar (n : Nat) (s : String) : Prop := s.length ≤ n ∧ IsText s

instance (n : ℤ) : Decidable (IsInteger n) := inferInstanceAs (Decidable (_ ∧ _))

-- named, as there is an instance that goes through all characters
instance (s : String) : Decidable (IsText s) :=
  List.decidableBAll (fun c : Char => c.toNat ≠ 0) s.toList

instance (n : Nat) (s : String) : Decidable (IsVarchar n s) := inferInstanceAs (Decidable (_ ∧ _))

def integer : ℤ → Option ℤ := keep IsInteger

/-- `TEXT` -/
def text : String → Option String := keep IsText

/-- `VARCHAR(n)` -/
def varchar (n : Nat) : String → Option String := keep (IsVarchar n)

theorem holds_integer : Holds IsInteger integer := holds_keep _

theorem holds_text : Holds IsText text := holds_keep _

theorem holds_varchar (n : Nat) : Holds (IsVarchar n) (varchar n) := holds_keep _

/-- What fits a shorter column fits a longer one. -/
theorem IsVarchar.mono {m n : Nat} {s : String} (hmn : m ≤ n) (h : IsVarchar m s) :
    IsVarchar n s :=
  ⟨le_trans h.1 hmn, h.2⟩

/-! ## §3. Decimal numbers. -/

/-- To the nearest integer, ties away from zero. -/
def roundAway (x : ℚ) : ℤ := if 0 ≤ x then ⌊x + 1 / 2⌋ else ⌈x - 1 / 2⌉

/-- Rounding leaves whole numbers alone. -/
theorem roundAway_intCast (n : ℤ) : roundAway n = n := by
  unfold roundAway
  split
  · rw [Int.floor_eq_iff]
    constructor <;> linarith
  · rw [Int.ceil_eq_iff]
    constructor <;> linarith

/-- At most `p` digits. -/
def HasDigits (p : Nat) (n : ℤ) : Prop := |n| < 10 ^ p

instance (p : Nat) (n : ℤ) : Decidable (HasDigits p n) := inferInstanceAs (Decidable (_ < _))

/-- `NUMERIC(p, s)`: the number of units of `10 ^ -s` that it holds for `x`. -/
def numeric (p s : Nat) (x : ℚ) : Option ℤ := keep (HasDigits p) (roundAway (x * 10 ^ s))

/-- A number of units is not rounded. -/
theorem numeric_units (p s : Nat) (n : ℤ) : numeric p s ((n : ℚ) / 10 ^ s) = keep (HasDigits p) n := by
  have hpow : (10 : ℚ) ^ s ≠ 0 := pow_ne_zero s (by norm_num)
  unfold numeric
  rw [div_mul_cancel₀ _ hpow, roundAway_intCast]

end Procurement.Framework
