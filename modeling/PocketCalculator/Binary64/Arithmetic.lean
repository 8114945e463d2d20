import PocketCalculator.Binary64.Rounding

/-!
# Arithmetic on binary64 numbers

Each operation takes the exact values of its operands, forms the exact rational result and rounds
it once. What remains to be said is which zero and which infinity a result is, and when there is
no result at all:

* the sign of a product or quotient is the product of the signs, also for zeros and infinities;
* a sum that is zero is the positive zero unless both operands are negative;
* `∞ - ∞`, `0 * ∞`, `0 / 0` and `∞ / ∞` are no numbers, and neither is anything computed from
  something that is no number.
-/

namespace PocketCalculator.Binary64

/-! ## The four operations -/

def neg : Binary64 → Binary64
  | finite s m => finite (!s) m
  | infinite s => infinite !s
  | nan => nan

/-- The sum, rounded once. -/
def add : Binary64 → Binary64 → Binary64
  | nan, _ => nan
  | _, nan => nan
  | infinite s, infinite t => if s = t then infinite s else nan
  | infinite s, finite _ _ => infinite s
  | finite _ _, infinite t => infinite t
  | finite s m, finite t n =>
    let sum := (finite s m).toRat + (finite t n).toRat
    if sum = 0 then zero (s && t) else ofRat sum

/-- The product, rounded once. -/
def mul : Binary64 → Binary64 → Binary64
  | nan, _ => nan
  | _, nan => nan
  | infinite s, infinite t => infinite (s ^^ t)
  | infinite s, finite t n => if n = .zero then nan else infinite (s ^^ t)
  | finite s m, infinite t => if m = .zero then nan else infinite (s ^^ t)
  | finite s m, finite t n => round (s ^^ t) (m.toRat * n.toRat)

/-- The quotient, rounded once. A number other than zero divided by zero is infinite. -/
def div : Binary64 → Binary64 → Binary64
  | nan, _ => nan
  | _, nan => nan
  | infinite _, infinite _ => nan
  | infinite s, finite t _ => infinite (s ^^ t)
  | finite s _, infinite t => zero (s ^^ t)
  | finite s m, finite t n =>
    if n = .zero then if m = .zero then nan else infinite (s ^^ t)
    else round (s ^^ t) (m.toRat / n.toRat)

instance : Neg Binary64 := ⟨neg⟩
instance : Add Binary64 := ⟨add⟩
instance : Sub Binary64 := ⟨fun x y ↦ x + -y⟩
instance : Mul Binary64 := ⟨mul⟩
instance : Div Binary64 := ⟨div⟩

theorem sub_eq (x y : Binary64) : x - y = x + -y := rfl

@[simp]
theorem nan_add (x : Binary64) : nan + x = nan := by
  cases x <;> rfl

@[simp]
theorem add_nan (x : Binary64) : x + nan = nan := by
  cases x <;> rfl

@[simp]
theorem nan_mul (x : Binary64) : nan * x = nan := by
  cases x <;> rfl

@[simp]
theorem mul_nan (x : Binary64) : x * nan = nan := by
  cases x <;> rfl

@[simp]
theorem nan_div (x : Binary64) : nan / x = nan := by
  cases x <;> rfl

@[simp]
theorem div_nan (x : Binary64) : x / nan = nan := by
  cases x <;> rfl

/-! ## Whole numbers and order -/

/-- The largest whole number that is no larger. The negative zero stays what it is. -/
def floor : Binary64 → Binary64
  | finite s m => if m = .zero then finite s m else ofRat (finite s m).toRat.floor
  | x => x

/-- The order of the numbers: the infinities lie at the ends, the zeros are equal, and what is no
number is in no relation to anything. -/
def le : Binary64 → Binary64 → Bool
  | nan, _ => false
  | _, nan => false
  | infinite s, infinite t => s || !t
  | infinite s, finite _ _ => s
  | finite _ _, infinite t => !t
  | finite s m, finite t n => (finite s m).toRat ≤ (finite t n).toRat

instance : LE Binary64 := ⟨fun x y ↦ x.le y = true⟩

instance (x y : Binary64) : Decidable (x ≤ y) :=
  inferInstanceAs (Decidable (x.le y = true))

theorem finite_le_finite {s t : Bool} {m n : Magnitude} :
    finite s m ≤ finite t n ↔ (finite s m).toRat ≤ (finite t n).toRat :=
  decide_eq_true_iff

/-! ## Powers -/

/-- Multiplies `acc` by the powers `base`, `base²`, `base⁴`, … that make up `base ^ n`, each
product rounded. The square after the last power is not formed. -/
def powFrom (acc base : Binary64) (n : Nat) : Binary64 :=
  let acc := if n % 2 = 1 then acc * base else acc
  if n / 2 = 0 then acc else powFrom acc (base * base) (n / 2)
termination_by n
decreasing_by omega

/-- The power with a natural exponent, by repeated squaring with one rounding per product. -/
def pow (base : Binary64) (n : Nat) : Binary64 :=
  powFrom 1 base n

end PocketCalculator.Binary64
