import Mathlib.Algebra.GroupWithZero.Nat
import Mathlib.Algebra.Order.Group.Nat
import Mathlib.Data.List.GetD

/-!
# Reads and writes at a position

The content of a file is a list. A read takes what there is from a position on, up to a count; a
write replaces what is there, and fills with zeros what is missing in front of it.
-/

namespace FengShui.FileBytes

open List

variable {α : Type}

/-- `pread`. -/
def pread (file : List α) (position count : ℕ) : List α := (file.drop position).take count

theorem length_pread (file : List α) (position count : ℕ) :
    (pread file position count).length = min count (file.length - position) := by
  unfold pread
  rw [length_take, length_drop]

/-- What a read gives and what is behind it. -/
theorem pread_append (file : List α) (position count : ℕ) {behind : ℕ}
    (hbehind : behind = position + (pread file position count).length) :
    pread file position count ++ file.drop behind = file.drop position := by
  have hlen := length_pread file position count
  rcases Nat.le_total count (file.length - position) with hle | hle
  · rw [hbehind, hlen, Nat.min_eq_left hle, ← drop_drop]
    exact take_append_drop count _
  · have hall : pread file position count = file.drop position :=
      take_of_length_le (by rw [length_drop]; exact hle)
    have hnone : file.drop behind = [] := by
      rw [drop_eq_nil_iff, hbehind, hlen]
      omega
    rw [hall, hnone, append_nil]

variable [Zero α]

/-- `pwrite`. -/
def pwrite (file : List α) (position : ℕ) (bytes : List α) : List α :=
  if bytes.isEmpty then file
  else
    file.take position ++ List.replicate (position - file.length) 0 ++ bytes ++
      file.drop (position + bytes.length)

@[simp]
theorem pwrite_nil (file : List α) (position : ℕ) : pwrite file position [] = file := rfl

theorem pwrite_of_ne_nil {bytes : List α} (h : bytes ≠ []) (file : List α) (position : ℕ) :
    pwrite file position bytes = file.take position ++ List.replicate (position - file.length) 0 ++
      bytes ++ file.drop (position + bytes.length) :=
  if_neg (by simpa using h)

theorem length_pwrite {bytes : List α} (h : bytes ≠ []) (file : List α) (position : ℕ) :
    (pwrite file position bytes).length = max file.length (position + bytes.length) := by
  rw [pwrite_of_ne_nil h]
  simp only [length_append, length_take, length_replicate, length_drop]
  omega

/-- What is written stands where it was written, and the rest is as it was. -/
theorem getD_pwrite (file : List α) (position : ℕ) (bytes : List α) (k : ℕ) :
    (pwrite file position bytes).getD k 0 =
      if position ≤ k ∧ k < position + bytes.length then bytes.getD (k - position) 0
      else file.getD k 0 := by
  by_cases hnil : bytes = []
  · subst hnil
    rw [pwrite_nil, if_neg]
    simp only [length_nil]
    omega
  rw [pwrite_of_ne_nil hnil]
  have hfront : (file.take position ++ List.replicate (position - file.length) 0).length =
      position := by
    rw [length_append, length_take, length_replicate]
    omega
  by_cases hlow : k < position
  · rw [if_neg (by omega), append_assoc, getD_append _ _ _ _ (by omega)]
    by_cases hfile : k < file.length
    · rw [getD_append _ _ _ _ (by rw [length_take]; omega), getD_eq_getElem?_getD,
        getElem?_take_of_lt hlow, getD_eq_getElem?_getD]
    · rw [getD_append_right _ _ _ _ (by rw [length_take]; omega),
        getD_eq_default file 0 (by omega)]
      exact getD_replicate 0 (by rw [length_take]; omega)
  · by_cases hhigh : k < position + bytes.length
    · rw [if_pos ⟨by omega, hhigh⟩, getD_append _ _ _ _ (by rw [length_append]; omega),
        getD_append_right _ _ _ _ (by omega), hfront]
    · rw [if_neg (by omega), getD_append_right _ _ _ _ (by rw [length_append]; omega),
        length_append, hfront, getD_eq_getElem?_getD, getElem?_drop,
        getD_eq_getElem?_getD]
      congr 2
      omega

/-- An element of a list among others. -/
theorem getD_flatten {lists : List (List α)} {index k : ℕ} {content : List α}
    (hcont : lists[index]? = some content) (hk : k < content.length) :
    lists.flatten.getD (((lists.map List.length).take index).sum + k) 0 = content.getD k 0 := by
  induction lists generalizing index with
  | nil => cases hcont
  | cons first lists ih =>
    rw [flatten_cons]
    cases index with
    | zero =>
      obtain rfl : first = content := Option.some.inj hcont
      rw [take_zero, sum_nil, Nat.zero_add, getD_append _ _ _ _ hk]
    | succ index =>
      rw [map_cons, take_succ_cons, sum_cons,
        getD_append_right _ _ _ _ (by omega), ← ih hcont]
      congr 1
      omega

/-- Lists of one length with the same elements. -/
theorem ext_getD {front back : List α} (hlen : front.length = back.length)
    (h : ∀ k, front.getD k 0 = back.getD k 0) : front = back := by
  refine ext_getElem hlen fun k hfront hback => ?_
  have hk := h k
  rwa [getD_eq_getElem _ _ hfront, getD_eq_getElem _ _ hback] at hk

/-- A write right behind another one. -/
theorem pwrite_pwrite (file : List α) (position : ℕ) (front back : List α) :
    pwrite (pwrite file position front) (position + front.length) back =
      pwrite file position (front ++ back) := by
  by_cases hfront : front = []
  · subst hfront
    rfl
  by_cases hback : back = []
  · subst hback
    rw [pwrite_nil, append_nil]
  have hboth : front ++ back ≠ [] := append_ne_nil_of_left_ne_nil hfront back
  refine ext_getD ?_ fun k => ?_
  · rw [length_pwrite hback, length_pwrite hfront, length_pwrite hboth, length_append]
    omega
  · rw [getD_pwrite, getD_pwrite, getD_pwrite, length_append]
    by_cases hbehind : position + front.length ≤ k
    · by_cases hlast : k < position + front.length + back.length
      · rw [if_pos ⟨hbehind, hlast⟩, if_pos (by omega), getD_append_right _ _ _ _ (by omega)]
        congr 1
        omega
      · rw [if_neg (by omega), if_neg (by omega), if_neg (by omega)]
    · rw [if_neg (by omega)]
      by_cases hfirst : position ≤ k
      · rw [if_pos (by omega), if_pos (by omega), getD_append _ _ _ _ (by omega)]
      · rw [if_neg (by omega), if_neg (by omega)]

end FengShui.FileBytes
