import FengShui.Core.SimpleMap
import Mathlib.NumberTheory.LucasPrimality
import Mathlib.Tactic.NormNum.Prime

/-!
# The sizes of the hash map (`__ac_prime_list` of `core/native/maps/simple.h`)

The sizes below `2^31` are prime, so that a path comes to every slot, and each is more than enough
for what is in a table of the size before it. The sum of a slot and a step is a `uint32_t`, so it is
right just of these.
-/

namespace FengShui.SimpleMap

/-! ## Lucas's test -/

/-- `acc * base ^ exponent`, by squaring. -/
def powMod (modulus : ℕ) : ℕ → ℕ → ℕ → ℕ → ℕ
  | 0, acc, _, _ => acc % modulus
  | fuel + 1, acc, base, exponent =>
    powMod modulus fuel (if exponent % 2 = 1 then acc * base % modulus else acc)
      (base * base % modulus) (exponent / 2)

theorem powMod_eq (modulus fuel : ℕ) {acc base exponent : ℕ} (h : exponent < 2 ^ fuel) :
    (powMod modulus fuel acc base exponent : ZMod modulus) = acc * base ^ exponent := by
  induction fuel generalizing acc base exponent with
  | zero =>
    obtain rfl : exponent = 0 := by simpa using h
    unfold powMod
    rw [ZMod.natCast_mod, pow_zero, mul_one]
  | succ fuel ih =>
    have hhalf : exponent / 2 < 2 ^ fuel := by
      rw [pow_succ] at h
      omega
    unfold powMod
    rw [ih hhalf, ZMod.natCast_mod, Nat.cast_mul, ← pow_two, ← pow_mul]
    split_ifs with hodd
    · rw [ZMod.natCast_mod, Nat.cast_mul, mul_assoc, ← pow_succ']
      congr 2
      omega
    · congr 2
      omega

theorem powMod_lt {modulus : ℕ} (h : 0 < modulus) (fuel acc base exponent : ℕ) :
    powMod modulus fuel acc base exponent < modulus := by
  induction fuel generalizing acc base exponent with
  | zero => exact Nat.mod_lt _ h
  | succ fuel ih => exact ih _ _ _

/-- The test of a number below `2^31`, with the factors of the number before it. -/
def lucas (p a : ℕ) (factors : List ℕ) : Bool :=
  1 < p && p < 2 ^ 31 && factors.prod = p - 1 && powMod p 31 1 a (p - 1) = 1 &&
    factors.all fun q => powMod p 31 1 a ((p - 1) / q) ≠ 1

theorem prime_of_lucas {p : ℕ} (a : ℕ) (factors : List ℕ) (hfactors : ∀ q ∈ factors, q.Prime)
    (h : lucas p a factors = true) : p.Prime := by
  unfold lucas at h
  simp only [Bool.and_eq_true, decide_eq_true_eq, List.all_eq_true] at h
  obtain ⟨⟨⟨⟨hone, hlt⟩, hprod⟩, hfull⟩, hpart⟩ := h
  have hpow (exponent : ℕ) (hle : exponent ≤ p - 1) :
      (powMod p 31 1 a exponent : ZMod p) = (a : ZMod p) ^ exponent := by
    rw [powMod_eq p 31 (by omega), Nat.cast_one, one_mul]
  refine lucas_primality p a ?_ fun q hq hdvd => ?_
  · rw [← hpow _ le_rfl, hfull, Nat.cast_one]
  · rw [← hprod] at hdvd
    obtain ⟨factor, hmem, hfactor⟩ := hq.prime.dvd_prod_iff.mp hdvd
    obtain rfl := (Nat.prime_dvd_prime_iff_eq hq (hfactors factor hmem)).mp hfactor
    rw [← hpow _ (Nat.div_le_self _ _)]
    intro heq
    have hmod := (ZMod.natCast_eq_natCast_iff' _ 1 p).mp (by rw [heq, Nat.cast_one])
    rw [Nat.mod_eq_of_lt (powMod_lt (by omega) _ _ _ _), Nat.mod_eq_of_lt hone] at hmod
    exact hpart q hmem hmod

/-! ## The list -/

variable {prime : ℕ}

/-- The sizes whose slots and steps do not overflow. -/
theorem prime_of_index (h : prime < 29) : (primeList.getD prime 0).Prime := by
  have hsmall : ∀ count ∈ primeList.take 16, count.Prime := by
    unfold primeList
    norm_num
  have hlarge : ∀ count ∈ (primeList.take 29).drop 16, count.Prime := by
    have h393241 : Nat.Prime 393241 :=
      prime_of_lucas 11 [2, 2, 2, 3, 5, 29, 113] (by norm_num) (by decide +kernel)
    have h786433 : Nat.Prime 786433 :=
      prime_of_lucas 10 [2, 2, 2, 2, 2, 2, 2, 2, 2, 2, 2, 2, 2, 2, 2, 2, 2, 2, 3] (by norm_num)
        (by decide +kernel)
    have h1572869 : Nat.Prime 1572869 :=
      prime_of_lucas 2 [2, 2, 11, 35747] (by norm_num) (by decide +kernel)
    have h3145739 : Nat.Prime 3145739 :=
      prime_of_lucas 2 [2, 1572869] (by norm_num) (by decide +kernel)
    have h6291469 : Nat.Prime 6291469 :=
      prime_of_lucas 2 [2, 2, 3, 3, 174763] (by norm_num) (by decide +kernel)
    have h12582917 : Nat.Prime 12582917 :=
      prime_of_lucas 2 [2, 2, 727, 4327] (by norm_num) (by decide +kernel)
    have h25165843 : Nat.Prime 25165843 :=
      prime_of_lucas 2 [2, 3, 13, 19, 16981] (by norm_num) (by decide +kernel)
    have h50331653 : Nat.Prime 50331653 :=
      prime_of_lucas 2 [2, 2, 7, 313, 5743] (by norm_num) (by decide +kernel)
    have h100663319 : Nat.Prime 100663319 :=
      prime_of_lucas 7 [2, 7, 23, 312619] (by norm_num) (by decide +kernel)
    have h201326611 : Nat.Prime 201326611 :=
      prime_of_lucas 2 [2, 3, 5, 6710887] (by norm_num) (by decide +kernel)
    have h402653189 : Nat.Prime 402653189 :=
      prime_of_lucas 2 [2, 2, 7, 7, 7, 269, 1091] (by norm_num) (by decide +kernel)
    have h805306457 : Nat.Prime 805306457 :=
      prime_of_lucas 3 [2, 2, 2, 17, 5921371] (by norm_num) (by decide +kernel)
    have h1610612741 : Nat.Prime 1610612741 :=
      prime_of_lucas 2 [2, 2, 5, 11, 1399, 5233] (by norm_num) (by decide +kernel)
    unfold primeList
    simp only [List.take_succ_cons, List.take_zero, List.drop_succ_cons, List.drop_zero,
      List.forall_mem_cons]
    exact ⟨h393241, h786433, h1572869, h3145739, h6291469, h12582917, h25165843, h50331653,
      h100663319, h201326611, h402653189, h805306457, h1610612741, nofun⟩
  have hlen : prime < (primeList.take 29).length := h
  have hget : primeList.getD prime 0 = (primeList.take 29)[prime] := by
    rw [List.getElem_take]
    exact List.getD_eq_getElem _ _ _
  have hmem : primeList.getD prime 0 ∈ primeList.take 16 ++ (primeList.take 29).drop 16 := by
    rw [hget]
    exact List.getElem_mem hlen
  rcases List.mem_append.mp hmem with hmem | hmem
  · exact hsmall _ hmem
  · exact hlarge _ hmem

theorem lt_of_index (h : prime < 29) : primeList.getD prime 0 < 2 ^ 31 := by
  have hall : ∀ prime < 29, primeList.getD prime 0 < 2 ^ 31 := by decide
  exact hall prime h

theorem three_le_of_index (h : prime < 29) : 3 ≤ primeList.getD prime 0 := by
  have hall : ∀ prime < 29, 3 ≤ primeList.getD prime 0 := by decide
  exact hall prime h

theorem le_newPrime (buckets prime : ℕ) : prime ≤ newPrime buckets prime := Nat.le_add_right _ _

/-- A table that is full goes on to the next size. -/
theorem newPrime_succ (h : prime < 29) :
    newPrime (primeList.getD prime 0 + 1) prime = prime + 1 := by
  have hall : ∀ prime < 29, newPrime (primeList.getD prime 0 + 1) prime = prime + 1 := by
    decide +kernel
  exact hall prime h

/-- What there may be in a full table, and two nodes for every further batch, are less than the
bound of the next size. -/
theorem room_succ (h : prime < 28) :
    primeList.getD prime 0 * 7 / 10 + 2 * ((primeList.getD prime 0 - 1) / 256) + 1 ≤
      primeList.getD (prime + 1) 0 * 7 / 10 := by
  have hall : ∀ prime < 28,
      primeList.getD prime 0 * 7 / 10 + 2 * ((primeList.getD prime 0 - 1) / 256) + 1 ≤
        primeList.getD (prime + 1) 0 * 7 / 10 := by decide
  exact hall prime h

end FengShui.SimpleMap
