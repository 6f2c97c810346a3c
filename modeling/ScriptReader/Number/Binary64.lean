/-!
# Number/Binary64 — numbers of 64 bits: a sign and a magnitude

The magnitudes are the bit patterns below the sign bit, in the order of the values they stand for:
the finite ones, `infinity`, and past it the patterns that stand for no number.  A finite magnitude
is `significand · 2 ^ exponent`; `encode` is the way back, and `encode_significand` says so.
-/

namespace ScriptReader

/-- A number in the binary format of 64 bits. -/
structure Binary64 where
  negative : Bool
  /-- The bits below the sign bit. -/
  magnitude : Nat
  magnitude_lt : magnitude < 1 <<< 63
  deriving DecidableEq, Repr

namespace Binary64

/-! ## Bits -/

/-- The number with the given 64 bits. -/
def ofBits (bits : Nat) : Binary64 :=
  ⟨bits.testBit 63, bits % (1 <<< 63), Nat.mod_lt _ (by decide)⟩

/-- The 64 bits of a number. -/
def bits (x : Binary64) : Nat := (if x.negative then 1 <<< 63 else 0) + x.magnitude

/-- The magnitude past every finite one. -/
def infinity : Nat := 0x7FF <<< 52

/-- The positive number of a magnitude; those past infinity count as infinity. -/
def ofMagnitude (m : Nat) : Binary64 :=
  ⟨false, min m infinity, Nat.lt_of_le_of_lt (Nat.min_le_right _ _) (by decide)⟩

/-- The same magnitude with the other sign. -/
def neg (x : Binary64) : Binary64 := { x with negative := !x.negative }

def isFinite (x : Binary64) : Bool := x.magnitude < infinity

def isNaN (x : Binary64) : Bool := infinity < x.magnitude

/-! ## The value of a finite magnitude -/

/-- The whole number that the power of two multiplies. -/
def significand (magnitude : Nat) : Nat :=
  if magnitude < 1 <<< 52 then magnitude else magnitude % (1 <<< 52) + 1 <<< 52

/-- The power of two, counted from the least one, `2 ^ -1074`. -/
def scale (magnitude : Nat) : Nat := magnitude >>> 52 - 1

/-- The exponent of the power of two. -/
def exponent (magnitude : Nat) : Int := scale magnitude - 1074

/-- The value as a quotient. -/
def ratio (magnitude : Nat) : Nat × Nat :=
  (significand magnitude <<< (exponent magnitude).toNat, 1 <<< (-exponent magnitude).toNat)

/-- The magnitude of `m · 2 ^ (s - 1074)`, where `m` is at most `2 ^ 53`, and at least `2 ^ 52`
unless `s` is zero: the bit of `m` above the fraction carries into the exponent's field. -/
def encode (m s : Nat) : Nat := s <<< 52 + m

/-- **A magnitude is encoded from its own significand and scale.** -/
theorem encode_significand (magnitude : Nat) :
    encode (significand magnitude) (scale magnitude) = magnitude := by
  unfold encode significand scale
  simp only [Nat.shiftLeft_eq, Nat.shiftRight_eq_div_pow]
  split <;> omega

end Binary64

end ScriptReader
