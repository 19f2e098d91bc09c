/-!
# Numbers that fit in a double

A number is held as a significand below `2 ^ 64` and a power of ten. `absorb` takes in the digits of
a significand, `fitsDouble` says whether a number is small enough for a double: both factors are
rounded to 53 significant bits, and their product has to be below the least number that is rounded
to infinity.
-/

namespace PatternGraph.Json

/-- The value of a decimal digit. -/
def digitValue (c : Char) : Nat := c.toNat - 48

/-- A significand with as many more digits as it can take in below `2 ^ 64`, and the digits that are
left. The first digit that does not fit ends it. -/
def absorb : Nat → List Char → Nat × List Char
  | s, [] => (s, [])
  | s, d :: ds =>
    if 10 * s + digitValue d < 1 <<< 64 then absorb (10 * s + digitValue d) ds else (s, d :: ds)

/-- The number of bits behind the 53 highest ones. -/
def excessBits (n : Nat) : Nat := n.log2 + 1 - 53

/-- The number of at most 53 significant bits that is nearest to `n`; of two, the one whose last bit
is zero. -/
def roundToDouble (n : Nat) : Nat :=
  let unit := 1 <<< excessBits n
  let kept := n / unit
  let rest := n % unit
  if 2 * rest < unit || (2 * rest == unit && kept % 2 == 0) then kept * unit else (kept + 1) * unit

/-- The least number that is rounded to infinity. -/
def doubleLimit : Nat := 1 <<< 1024 - 1 <<< 970

/-- Whether a significand times a power of ten is small enough for a double. The powers end at
`10 ^ 308`. -/
def fitsDouble (significand : Nat) (exponent : Int) : Bool :=
  significand == 0 || exponent < 0 ||
    (exponent ≤ 308 &&
      roundToDouble significand * roundToDouble (Nat.pow 10 exponent.toNat) < doubleLimit)

theorem roundToDouble_zero : roundToDouble 0 = 0 := by decide

/-- A number of at most 53 bits is kept. -/
theorem roundToDouble_of_excessBits {n : Nat} (h : excessBits n = 0) : roundToDouble n = n := by
  simp [roundToDouble, h, Nat.mod_one]

/-- A rounded number is no further away than half of the last bit that it keeps. -/
theorem roundToDouble_near (n : Nat) :
    2 * n ≤ 2 * roundToDouble n + 1 <<< excessBits n ∧
      2 * roundToDouble n ≤ 2 * n + 1 <<< excessBits n := by
  have hpos : 0 < 1 <<< excessBits n := by
    rw [Nat.shiftLeft_eq, Nat.one_mul]
    exact Nat.two_pow_pos _
  have hdiv := Nat.div_add_mod n (1 <<< excessBits n)
  have hlt := Nat.mod_lt n hpos
  unfold roundToDouble
  simp only
  generalize 1 <<< excessBits n = unit at *
  generalize n / unit = kept at *
  generalize n % unit = rest at *
  rw [Nat.mul_comm] at hdiv
  split <;> rename_i h <;> simp at h
  · omega
  · rw [Nat.add_mul]
    omega

end PatternGraph.Json
