import SerpentCsg.Scalar

/-! # Checked Scalars

  Scalars that remember whether something was divided by zero. The geometry is written once over
  any type of scalars, so it runs on checked ones as well: it gives there what it gives on the
  scalars themselves, unless something was divided by zero on the way. As a vector of length zero
  is brought to length one by dividing by zero, that is noticed too.

  Comparisons with what is undefined fail, and it counts as zero and has no text. Nothing that is
  shown with checked scalars looks at those.
-/

namespace SerpentCsg

/-- A scalar, or what is left of it once something was divided by zero. -/
inductive Checked (K : Type) where
  | defined (x : K)
  | undefined

namespace Checked

variable {K : Type}

/-- A function of a scalar. -/
def map (f : K → K) : Checked K → Checked K
  | defined x => defined (f x)
  | undefined => undefined

/-- A function of two scalars. -/
def map₂ (f : K → K → K) : Checked K → Checked K → Checked K
  | defined x, defined y => defined (f x y)
  | _, _ => undefined

/-- A relation of two scalars. -/
def Both (r : K → K → Prop) : Checked K → Checked K → Prop
  | defined x, defined y => r x y
  | _, _ => False

instance {r : K → K → Prop} [DecidableRel r] : DecidableRel (Both r)
  | defined x, defined y => inferInstanceAs (Decidable (r x y))
  | defined _, undefined => isFalse id
  | undefined, _ => isFalse id

variable [Scalar K]

/-- A function that divides its first argument by the second. -/
def dividing (f : K → K → K) : Checked K → Checked K → Checked K
  | defined x, defined y => if y == 0 then undefined else defined (f x y)
  | _, _ => undefined

instance : Scalar (Checked K) where
  zero := defined 0
  one := defined 1
  add := map₂ (· + ·)
  sub := map₂ (· - ·)
  mul := map₂ (· * ·)
  div := dividing (· / ·)
  neg := map (- ·)
  lt := Both (· < ·)
  le := Both (· ≤ ·)
  beq
    | defined x, defined y => x == y
    | _, _ => false
  decidableLT := inferInstanceAs (DecidableRel (Both (· < ·)))
  decidableLE := inferInstanceAs (DecidableRel (Both (· ≤ ·)))
  sqrt := map Scalar.sqrt
  abs := map Scalar.abs
  signum := map Scalar.signum
  floor := map Scalar.floor
  remainder := dividing Scalar.remainder
  sin := map Scalar.sin
  cos := map Scalar.cos
  ofCount n := defined (Scalar.ofCount n)
  toCount
    | defined x => Scalar.toCount x
    | undefined => 0
  ofNumeral numeral := defined (Scalar.ofNumeral numeral)
  isNegligible
    | defined x => Scalar.isNegligible x
    | undefined => false
  text
    | defined x => Scalar.text x
    | undefined => ""

theorem div_eq (x y : K) :
    (defined x / defined y : Checked K) = if y == 0 then undefined else defined (x / y) := rfl

theorem div_of_ne {x y : K} (h : (y == 0) = false) :
    (defined x / defined y : Checked K) = defined (x / y) := by
  rw [div_eq, h]
  rfl

theorem div_of_eq {x y : K} (h : (y == 0) = true) :
    (defined x / defined y : Checked K) = undefined := by
  rw [div_eq, h]
  rfl

/-- One half is defined where two is not zero. -/
theorem half_eq (htwo : (Scalar.two == (0 : K)) = false) :
    (Scalar.half : Checked K) = defined Scalar.half :=
  div_of_ne htwo

end Checked

end SerpentCsg
