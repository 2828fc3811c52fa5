import Mathlib.Data.List.Basic
import Mathlib.Data.UInt
import Mathlib.Tactic.Ring

/-!
# Big-endian numbers as byte strings

`toBytesBE width value` is the fixed-width big-endian encoding of `value`, which keeps the low
`8 * width` bits, and `ofBytesBE` reads such a string back by the usual left fold. The two are
inverse up to the truncation (`ofBytesBE_toBytesBE`, `toBytesBE_ofBytesBE`), and the fold over a
concatenation is positional (`ofBytesBE_append`).
-/

namespace ByteString

/-- The `width` big-endian bytes of `value`, most significant byte first. -/
def toBytesBE : ℕ → ℕ → List UInt8
  | 0, _ => []
  | width + 1, value => UInt8.ofNat (value / 256 ^ width) :: toBytesBE width value

/-- The number that a byte string denotes, most significant byte first. -/
def ofBytesBE (bytes : List UInt8) : ℕ :=
  bytes.foldl (fun value element => value * 256 + element.toNat) 0

@[simp]
theorem length_toBytesBE (width value : ℕ) : (toBytesBE width value).length = width := by
  induction width with
  | zero => rfl
  | succ width ih => simp [toBytesBE, ih]

@[simp]
theorem ofBytesBE_nil : ofBytesBE [] = 0 := rfl

@[simp]
theorem ofBytesBE_singleton (b : UInt8) : ofBytesBE [b] = b.toNat := by simp [ofBytesBE]

/-- The fold from a start value is the start value shifted past the string, plus the string's own
number. -/
theorem foldl_eq_ofBytesBE (start : ℕ) (bytes : List UInt8) :
    bytes.foldl (fun value element => value * 256 + element.toNat) start =
      start * 256 ^ bytes.length + ofBytesBE bytes := by
  induction bytes generalizing start with
  | nil => simp
  | cons b bytes ih =>
    have hcons : ofBytesBE (b :: bytes) = b.toNat * 256 ^ bytes.length + ofBytesBE bytes := by
      simp only [ofBytesBE, List.foldl_cons]
      rw [ih, Nat.zero_mul, Nat.zero_add]
      rfl
    rw [List.foldl_cons, ih, hcons, List.length_cons, pow_succ]
    ring

theorem ofBytesBE_append (xs ys : List UInt8) :
    ofBytesBE (xs ++ ys) = ofBytesBE xs * 256 ^ ys.length + ofBytesBE ys := by
  unfold ofBytesBE
  rw [List.foldl_append, foldl_eq_ofBytesBE]
  rfl

theorem ofBytesBE_cons (b : UInt8) (bytes : List UInt8) :
    ofBytesBE (b :: bytes) = b.toNat * 256 ^ bytes.length + ofBytesBE bytes := by
  rw [← List.singleton_append, ofBytesBE_append, ofBytesBE_singleton]

/-- A string of `n` bytes denotes a number below `256 ^ n`. -/
theorem ofBytesBE_lt (bytes : List UInt8) : ofBytesBE bytes < 256 ^ bytes.length := by
  induction bytes with
  | nil => simp
  | cons b bytes ih =>
    have hb : b.toNat ≤ 255 := Nat.le_of_lt_succ b.toNat_lt
    rw [ofBytesBE_cons, List.length_cons, pow_succ]
    calc b.toNat * 256 ^ bytes.length + ofBytesBE bytes
        < b.toNat * 256 ^ bytes.length + 256 ^ bytes.length := Nat.add_lt_add_left ih _
      _ = (b.toNat + 1) * 256 ^ bytes.length := by ring
      _ ≤ 256 * 256 ^ bytes.length := Nat.mul_le_mul_right _ (by omega)
      _ = 256 ^ bytes.length * 256 := by ring

/-- Reading back a fixed-width number gives its residue at that width. -/
@[simp]
theorem ofBytesBE_toBytesBE (width value : ℕ) :
    ofBytesBE (toBytesBE width value) = value % 256 ^ width := by
  induction width with
  | zero => simp [toBytesBE, Nat.mod_one]
  | succ width ih =>
    rw [toBytesBE, ofBytesBE_cons, ih, length_toBytesBE, pow_succ, Nat.mod_mul]
    simp only [UInt8.toNat_ofNat']
    ring

/-- A number that fits its width is read back unchanged. -/
theorem ofBytesBE_toBytesBE_of_lt {width value : ℕ} (h : value < 256 ^ width) :
    ofBytesBE (toBytesBE width value) = value := by
  rw [ofBytesBE_toBytesBE, Nat.mod_eq_of_lt h]

/-- Only the residue of the value matters. -/
theorem toBytesBE_mod (width value : ℕ) : toBytesBE width (value % 256 ^ width) =
    toBytesBE width value := by
  suffices h : ∀ n m, toBytesBE n (value % 256 ^ (n + m)) = toBytesBE n value from h width 0
  intro n
  induction n with
  | zero => intro m; rfl
  | succ n ih =>
    intro m
    have htail : toBytesBE n (value % 256 ^ (n + 1 + m)) = toBytesBE n value := by
      rw [Nat.add_assoc]
      exact ih (1 + m)
    have hsplit : 256 ^ (n + 1 + m) = 256 ^ n * 256 ^ (1 + m) := by rw [← pow_add]; ring_nf
    have hhead : UInt8.ofNat (value % 256 ^ (n + 1 + m) / 256 ^ n) =
        UInt8.ofNat (value / 256 ^ n) := by
      rw [hsplit, Nat.mod_mul_right_div_self, pow_add, pow_one]
      apply UInt8.toNat.inj
      simp
    rw [toBytesBE, htail, hhead]
    rfl

/-- Every byte string is the fixed-width encoding of the number it denotes. -/
theorem toBytesBE_ofBytesBE (bytes : List UInt8) :
    toBytesBE bytes.length (ofBytesBE bytes) = bytes := by
  induction bytes with
  | nil => rfl
  | cons b bytes ih =>
    have hlt := ofBytesBE_lt bytes
    have hpos : 0 < 256 ^ bytes.length := Nat.pow_pos (by omega)
    rw [List.length_cons, toBytesBE, ofBytesBE_cons]
    congr 1
    · rw [Nat.mul_comm, Nat.mul_add_div hpos, Nat.div_eq_of_lt hlt, Nat.add_zero]
      simp
    · rw [← toBytesBE_mod, Nat.mul_add_mod_of_lt hlt, ih]

end ByteString
