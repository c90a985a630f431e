/-!
# The size of a text

`byteLength` counts the bytes that a text takes in UTF-8. Main statement : the bytes of two
texts add up (`byteLength_append`).
-/

namespace PolicyLint.Text

/-- The number of bytes of a text. -/
def byteLength (text : List Char) : Nat :=
  text.foldr (fun c size => c.utf8Size + size) 0

@[simp] theorem byteLength_append (text rest : List Char) :
    byteLength (text ++ rest) = byteLength text + byteLength rest := by
  induction text with
  | nil => exact (Nat.zero_add _).symm
  | cons c text ih =>
    show c.utf8Size + byteLength (text ++ rest) = c.utf8Size + byteLength text + byteLength rest
    rw [ih, Nat.add_assoc]

theorem byteLength_replicate (k : Nat) (c : Char) :
    byteLength (List.replicate k c) = k * c.utf8Size := by
  induction k with
  | zero => exact (Nat.zero_mul _).symm
  | succ k ih =>
    show c.utf8Size + byteLength (List.replicate k c) = (k + 1) * c.utf8Size
    rw [ih, Nat.succ_mul, Nat.add_comm]

end PolicyLint.Text
