/-!
# Text/Utf8 — reading bytes as UTF-8, and where they fail to be

`decode` reads a whole list of bytes.  On bytes that are no UTF-8 it tells how many bytes before the
fault are well formed, and how many bytes the faulty sequence takes; a sequence that is right as far
as it goes, but cut short by the end, has no length.
-/

namespace ScriptReader.Text

/-- Where, and how, bytes fail to be UTF-8. -/
structure Utf8Fault where
  /-- The number of well-formed bytes before the fault. -/
  position : Nat
  /-- The bytes of the faulty sequence; none if the end cut it short. -/
  length : Option Nat
  deriving DecidableEq, Repr

/-- The fault in words. -/
def Utf8Fault.message (f : Utf8Fault) : String :=
  match f.length with
  | some n => s!"invalid utf-8 sequence of {n} bytes from index {f.position}"
  | none => s!"incomplete utf-8 byte sequence from index {f.position}"

/-- What the first byte of a sequence announces: how many bytes follow it, its own share of the code
point, and the bounds of the second byte, which exclude overlong forms and surrogates. -/
structure Lead where
  following : Nat
  bits : Nat
  low : Nat
  high : Nat

/-- Reads the first byte of a sequence. -/
def lead? (b : Nat) : Option Lead :=
  if b < 0x80 then some ⟨0, b, 0, 0⟩
  else if b < 0xC2 then none
  else if b < 0xE0 then some ⟨1, b - 0xC0, 0x80, 0xBF⟩
  else if b < 0xF0 then
    some ⟨2, b - 0xE0, if b = 0xE0 then 0xA0 else 0x80, if b = 0xED then 0x9F else 0xBF⟩
  else if b < 0xF5 then
    some ⟨3, b - 0xF0, if b = 0xF0 then 0x90 else 0x80, if b = 0xF4 then 0x8F else 0xBF⟩
  else none

/-- Appends the six bits of a following byte. -/
def extend (bits b : Nat) : Nat := bits * 64 + (b - 0x80)

/-- Does the byte lie between the bounds? -/
def within (low high : Nat) (b : UInt8) : Bool := low ≤ b.toNat && b.toNat ≤ high

/-- Reads one sequence after another, the next of which begins at byte `position`. -/
def decodeFrom (position : Nat) : List UInt8 → Except Utf8Fault (List Char)
  | [] => .ok []
  | a :: bytes =>
    match lead? a.toNat with
    | none => .error ⟨position, some 1⟩
    | some ⟨0, bits, _, _⟩ => (Char.ofNat bits :: ·) <$> decodeFrom (position + 1) bytes
    | some ⟨following + 1, bits, low, high⟩ =>
      match bytes with
      | [] => .error ⟨position, none⟩
      | b :: bytes =>
        if !within low high b then .error ⟨position, some 1⟩
        else if following = 0 then
          (Char.ofNat (extend bits b.toNat) :: ·) <$> decodeFrom (position + 2) bytes
        else
          match bytes with
          | [] => .error ⟨position, none⟩
          | c :: bytes =>
            if !within 0x80 0xBF c then .error ⟨position, some 2⟩
            else if following = 1 then
              (Char.ofNat (extend (extend bits b.toNat) c.toNat) :: ·)
                <$> decodeFrom (position + 3) bytes
            else
              match bytes with
              | [] => .error ⟨position, none⟩
              | d :: bytes =>
                if !within 0x80 0xBF d then .error ⟨position, some 3⟩
                else
                  (Char.ofNat (extend (extend (extend bits b.toNat) c.toNat) d.toNat) :: ·)
                    <$> decodeFrom (position + 4) bytes

/-- Reads bytes as UTF-8. -/
def decode (bytes : List UInt8) : Except Utf8Fault (List Char) := decodeFrom 0 bytes

example : decode [0x61, 0xC3, 0xA9] = .ok ['a', 'é'] := rfl
example : decode [0x61, 0xE2, 0x82] = .error ⟨1, none⟩ := rfl
example : decode [0xED, 0xA0, 0x80] = .error ⟨0, some 1⟩ := rfl
example : decode [0xF0, 0x9F, 0x98, 0x41] = .error ⟨0, some 3⟩ := rfl

end ScriptReader.Text
