/-!
# Text/Bytes — characters counted and cut by the bytes of their UTF-8 form

Positions inside pooled text are byte positions, while texts are lists of characters.  `byteCount`
measures, and `slice?` cuts; a position inside a character, or past the end, cuts nothing.  The main
statement is `slice?_append`: in `a ++ b ++ c` the bytes of `b` are where their counts say.
-/

namespace ScriptReader.Text

/-! ## Measuring -/

/-- The number of bytes of the UTF-8 form. -/
def byteCount : List Char → Nat
  | [] => 0
  | c :: cs => c.utf8Size + byteCount cs

@[simp] theorem byteCount_nil : byteCount [] = 0 := rfl

@[simp] theorem byteCount_cons (c : Char) (cs : List Char) :
    byteCount (c :: cs) = c.utf8Size + byteCount cs := rfl

@[simp] theorem byteCount_append (a b : List Char) :
    byteCount (a ++ b) = byteCount a + byteCount b := by
  induction a with
  | nil => simp
  | cons c a ih => simp only [List.cons_append, byteCount_cons, ih]; omega

/-! ## Cutting -/

/-- The characters after the first `n` bytes. -/
def dropBytes? : Nat → List Char → Option (List Char)
  | 0, cs => some cs
  | _ + 1, [] => none
  | n + 1, c :: cs => if c.utf8Size ≤ n + 1 then dropBytes? (n + 1 - c.utf8Size) cs else none

/-- The characters that make up the first `n` bytes. -/
def takeBytes? : Nat → List Char → Option (List Char)
  | 0, _ => some []
  | _ + 1, [] => none
  | n + 1, c :: cs =>
    if c.utf8Size ≤ n + 1 then (takeBytes? (n + 1 - c.utf8Size) cs).map (c :: ·) else none

/-- The characters that make up the bytes from `first` up to, but not including, `last`. -/
def slice? (first last : Nat) (cs : List Char) : Option (List Char) :=
  if first ≤ last then (dropBytes? first cs).bind (takeBytes? (last - first)) else none

private theorem utf8Size_add_pos (c : Char) (n : Nat) : ∃ m, c.utf8Size + n = m + 1 :=
  ⟨c.utf8Size + n - 1, by have := c.utf8Size_pos; omega⟩

@[simp] theorem dropBytes?_append (a b : List Char) :
    dropBytes? (byteCount a) (a ++ b) = some b := by
  induction a with
  | nil => simp [dropBytes?]
  | cons c a ih =>
    obtain ⟨m, hm⟩ := utf8Size_add_pos c (byteCount a)
    rw [byteCount_cons, hm, List.cons_append, dropBytes?, if_pos (by omega), ← hm,
      Nat.add_sub_cancel_left, ih]

@[simp] theorem takeBytes?_append (a b : List Char) :
    takeBytes? (byteCount a) (a ++ b) = some a := by
  induction a with
  | nil => simp [takeBytes?]
  | cons c a ih =>
    obtain ⟨m, hm⟩ := utf8Size_add_pos c (byteCount a)
    rw [byteCount_cons, hm, List.cons_append, takeBytes?, if_pos (by omega), ← hm,
      Nat.add_sub_cancel_left, ih, Option.map_some]

/-- **A middle part is where the byte counts say.** -/
theorem slice?_append (a b c : List Char) :
    slice? (byteCount a) (byteCount a + byteCount b) (a ++ b ++ c) = some b := by
  rw [slice?, if_pos (Nat.le_add_right _ _), List.append_assoc, dropBytes?_append, Option.bind_some,
    Nat.add_sub_cancel_left, takeBytes?_append]

end ScriptReader.Text
