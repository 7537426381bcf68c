import UniHal.Foundations.BitDivision
import Mathlib.Algebra.CharP.Two
import Mathlib.Algebra.Polynomial.FieldDivision
import Mathlib.Data.ZMod.Basic

/-! # The shift register divides polynomials

A stream of bits is a polynomial over the field of two elements, the first bit in the highest
place, and so is the register. What the register of a serial divider holds is the remainder of a
division by the polynomial that the divider is set to.
-/

namespace UniHal.Foundations.BitDivision
open BitField Polynomial

variable {w : ℕ}

def coeffOf (b : Bool) : ZMod 2 := if b then 1 else 0

theorem coeffOf_xor (a b : Bool) : coeffOf (a ^^ b) = coeffOf a + coeffOf b := by
  cases a <;> cases b <;> decide

theorem coeffOf_and (a b : Bool) : coeffOf (a && b) = coeffOf a * coeffOf b := by
  cases a <;> cases b <;> decide

theorem coeffOf_inj {a b : Bool} (h : coeffOf a = coeffOf b) : a = b := by
  cases a <;> cases b <;> first | rfl | exact absurd h (by decide)

noncomputable def streamPoly (bits : List Bool) : (ZMod 2)[X] :=
  bits.foldl (fun p b => p * X + C (coeffOf b)) 0

@[simp] theorem streamPoly_nil : streamPoly [] = 0 := rfl

theorem streamPoly_concat (bits : List Bool) (b : Bool) :
    streamPoly (bits ++ [b]) = streamPoly bits * X + C (coeffOf b) := by
  rw [streamPoly, List.foldl_append]
  rfl

theorem streamPoly_append (bits bits' : List Bool) :
    streamPoly (bits ++ bits') = streamPoly bits * X ^ bits'.length + streamPoly bits' := by
  induction bits' using List.reverseRecOn with
  | nil => simp
  | append_singleton bits' b ih =>
    rw [← List.append_assoc, streamPoly_concat, ih, streamPoly_concat, List.length_append,
      List.length_singleton]
    ring

theorem degree_streamPoly_lt (bits : List Bool) : (streamPoly bits).degree < bits.length := by
  rw [Polynomial.degree_lt_iff_coeff_zero]
  induction bits using List.reverseRecOn with
  | nil => simp
  | append_singleton bits b ih =>
    intro n hn
    rw [List.length_append, List.length_singleton] at hn
    obtain ⟨m, rfl⟩ : ∃ m, n = m + 1 := ⟨n - 1, by omega⟩
    rw [streamPoly_concat, coeff_add, coeff_mul_X, coeff_C_succ, add_zero]
    exact ih m (by omega)

/-- Streams of one length are told apart by their polynomials. -/
theorem streamPoly_inj {bits bits' : List Bool} (hlen : bits.length = bits'.length)
    (h : streamPoly bits = streamPoly bits') : bits = bits' := by
  induction bits using List.reverseRecOn generalizing bits' with
  | nil => exact (List.eq_nil_of_length_eq_zero hlen.symm).symm
  | append_singleton bits b ih =>
    cases bits' using List.reverseRecOn with
    | nil => simp at hlen
    | append_singleton bits' b' =>
      rw [streamPoly_concat, streamPoly_concat] at h
      have hlast : b = b' := by
        have hzero := congrArg (fun p => coeff p 0) h
        simp only [coeff_add, coeff_mul_X_zero, coeff_C_zero, zero_add] at hzero
        exact coeffOf_inj hzero
      subst hlast
      have hrest : streamPoly bits = streamPoly bits' :=
        mul_right_cancel₀ X_ne_zero (add_right_cancel h)
      rw [ih (by simpa using hlen) hrest]

/-- The lowest `size` bits of a register. -/
noncomputable def registerPoly (size : ℕ) (r : BitVec w) : (ZMod 2)[X] :=
  ∑ i ∈ Finset.range size, C (coeffOf (r.getLsbD i)) * X ^ i

theorem coeff_registerPoly (size : ℕ) (r : BitVec w) (n : ℕ) :
    (registerPoly size r).coeff n = if n < size then coeffOf (r.getLsbD n) else 0 := by
  rw [registerPoly, finsetSum_coeff]
  simp only [coeff_C_mul_X_pow, Finset.sum_ite_eq, Finset.mem_range]

theorem degree_registerPoly_lt (size : ℕ) (r : BitVec w) :
    (registerPoly size r).degree < size := by
  rw [Polynomial.degree_lt_iff_coeff_zero]
  intro n hn
  rw [coeff_registerPoly, if_neg (by omega)]

/-- What a divider divides by: the highest term is not in the word that it is set to. -/
noncomputable def divisor (size : ℕ) (poly : BitVec w) : (ZMod 2)[X] :=
  X ^ size + registerPoly size poly

theorem divisor_monic (size : ℕ) (poly : BitVec w) : (divisor size poly).Monic :=
  monic_X_pow_add (degree_registerPoly_lt size poly)

theorem degree_divisor (size : ℕ) (poly : BitVec w) : (divisor size poly).degree = size := by
  have hlt : (registerPoly size poly).degree < (X ^ size : (ZMod 2)[X]).degree := by
    rw [degree_X_pow]
    exact degree_registerPoly_lt size poly
  rw [divisor, degree_add_eq_left_of_degree_lt hlt, degree_X_pow]

theorem getLsbD_shiftBit {size : ℕ} (hsize : size ≤ w) (poly r : BitVec w) (b : Bool) {n : ℕ}
    (hn : n < size) : (shiftBit size poly r b).getLsbD n =
      ((decide (0 < n) && r.getLsbD (n - 1)) ^^
        ((r.getLsbD (size - 1) ^^ b) && poly.getLsbD n)) := by
  have hw : n < w := by omega
  cases htop : (r.getLsbD (size - 1) ^^ b) with
  | true =>
    simp only [shiftBit, htop, if_true, BitVec.getLsbD_xor, BitVec.getLsbD_and,
      BitVec.getLsbD_shiftLeft, getLsbD_lowMask, hw, hn, decide_true, Bool.and_true, Bool.true_and]
    cases n with
    | zero => simp
    | succ n => simp
  | false =>
    simp only [shiftBit, htop, Bool.false_eq_true, if_false, BitVec.getLsbD_and,
      BitVec.getLsbD_shiftLeft, getLsbD_lowMask, hw, hn, decide_true, Bool.and_true, Bool.true_and]
    cases n with
    | zero => simp
    | succ n => simp

/-- One bit: the register is multiplied by `X`, and the divisor goes off when its highest term
comes up. -/
theorem registerPoly_shiftBit {size : ℕ} (hpos : 0 < size) (hsize : size ≤ w)
    (poly r : BitVec w) (b : Bool) :
    registerPoly size (shiftBit size poly r b) =
      registerPoly size r * X + C (coeffOf b) * X ^ size +
        C (coeffOf (r.getLsbD (size - 1) ^^ b)) * divisor size poly := by
  have hcoeff (n : ℕ) : (registerPoly size r * X).coeff n =
      if 0 < n ∧ n ≤ size then coeffOf (r.getLsbD (n - 1)) else 0 := by
    cases n with
    | zero => simp
    | succ n =>
      rw [coeff_mul_X, coeff_registerPoly, Nat.add_sub_cancel]
      exact if_congr (by omega) rfl rfl
  ext n
  rw [coeff_add, coeff_add, coeff_C_mul_X_pow, coeff_C_mul, divisor, coeff_add, coeff_X_pow,
    coeff_registerPoly, coeff_registerPoly, hcoeff]
  rcases lt_trichotomy n size with hlt | rfl | hgt
  · rw [if_pos hlt, if_pos hlt, if_neg hlt.ne, if_neg hlt.ne, getLsbD_shiftBit hsize _ _ _ hlt,
      coeffOf_xor, coeffOf_and (r.getLsbD _ ^^ b), add_zero, zero_add]
    congr 1
    by_cases hn : 0 < n
    · rw [if_pos ⟨hn, hlt.le⟩, decide_eq_true hn, Bool.true_and]
    · rw [if_neg fun h => hn h.1, decide_eq_false hn, Bool.false_and]
      rfl
  · rw [if_neg (lt_irrefl n), if_neg (lt_irrefl n), if_pos ⟨hpos, le_rfl⟩, if_pos rfl, if_pos rfl,
      add_zero, mul_one, coeffOf_xor, CharTwo.add_self_eq_zero]
  · rw [if_neg hgt.not_gt, if_neg hgt.not_gt, if_neg fun h => hgt.not_ge h.2, if_neg hgt.ne',
      if_neg hgt.ne', add_zero, mul_zero, add_zero]

theorem degree_registerPoly_lt_divisor (size : ℕ) (poly r : BitVec w) :
    (registerPoly size r).degree < (divisor size poly).degree := by
  rw [degree_divisor]
  exact degree_registerPoly_lt size r

/-- After a stream the register holds the remainder of what it held before, moved up by the length
of the stream, and of the stream, moved up by the size of the register. -/
theorem registerPoly_shiftIn {size : ℕ} (hpos : 0 < size) (hsize : size ≤ w)
    (poly r : BitVec w) (bits : List Bool) :
    registerPoly size (shiftIn size poly r bits) =
      (registerPoly size r * X ^ bits.length + streamPoly bits * X ^ size) %ₘ
        divisor size poly := by
  have hmonic := divisor_monic size poly
  induction bits using List.reverseRecOn with
  | nil =>
    rw [streamPoly_nil, zero_mul, add_zero, List.length_nil, pow_zero, mul_one]
    exact ((modByMonic_eq_self_iff hmonic).mpr (degree_registerPoly_lt_divisor ..)).symm
  | append_singleton bits b ih =>
    set before := registerPoly size r * X ^ bits.length + streamPoly bits * X ^ size with hbefore
    have hafter : registerPoly size r * X ^ (bits ++ [b]).length +
        streamPoly (bits ++ [b]) * X ^ size = before * X + C (coeffOf b) * X ^ size := by
      rw [streamPoly_concat, List.length_append, List.length_singleton, hbefore]
      ring
    have hstep := registerPoly_shiftBit hpos hsize poly (shiftIn size poly r bits) b
    rw [hafter, shiftIn_append]
    change registerPoly size (shiftBit size poly (shiftIn size poly r bits) b) = _
    rw [← (modByMonic_eq_self_iff hmonic).mpr (degree_registerPoly_lt_divisor size poly
      (shiftBit size poly (shiftIn size poly r bits) b)), hstep, ih]
    apply modByMonic_eq_of_dvd_sub hmonic
    have hrest := (dvd_modByMonic_sub before (divisor size poly)).mul_right X
    have hdivisor := (dvd_refl (divisor size poly)).mul_left
      (C (coeffOf ((shiftIn size poly r bits).getLsbD (size - 1) ^^ b)))
    convert dvd_add hrest hdivisor using 1
    ring

section Same
variable {size : ℕ} {poly r : BitVec w} {bits bits' : List Bool}

/-- Streams of one length leave the same register when the divisor divides their difference. -/
theorem registerPoly_shiftIn_eq_iff (hpos : 0 < size) (hsize : size ≤ w)
    (hlen : bits.length = bits'.length) :
    registerPoly size (shiftIn size poly r bits) = registerPoly size (shiftIn size poly r bits') ↔
      divisor size poly ∣ (streamPoly bits - streamPoly bits') * X ^ size := by
  have hdiff : (registerPoly size r * X ^ bits.length + streamPoly bits * X ^ size) -
      (registerPoly size r * X ^ bits.length + streamPoly bits' * X ^ size) =
        (streamPoly bits - streamPoly bits') * X ^ size := by ring
  rw [registerPoly_shiftIn hpos hsize, registerPoly_shiftIn hpos hsize, ← hlen, ← sub_eq_zero,
    ← sub_modByMonic, modByMonic_eq_zero_iff_dvd (divisor_monic size poly), hdiff]

/-- A divisor with a constant term has no factor `X`. -/
theorem isCoprime_divisor_X_pow (hpos : 0 < size) (hodd : poly.getLsbD 0 = true) (k : ℕ) :
    IsCoprime (divisor size poly) (X ^ k) := by
  apply IsCoprime.pow_right
  apply IsCoprime.symm
  rw [irreducible_X.coprime_iff_not_dvd, X_dvd_iff, divisor, coeff_add, coeff_X_pow,
    if_neg hpos.ne, coeff_registerPoly, if_pos hpos, hodd, zero_add]
  decide

/-- A burst: streams that differ only in as many consecutive bits as the register has. -/
theorem registerPoly_shiftIn_ne_of_burst (hpos : 0 < size) (hsize : size ≤ w)
    (hodd : poly.getLsbD 0 = true) {before burst burst' after : List Bool}
    (hlen : burst.length = burst'.length) (hle : burst.length ≤ size) (hne : burst ≠ burst') :
    registerPoly size (shiftIn size poly r (before ++ burst ++ after)) ≠
      registerPoly size (shiftIn size poly r (before ++ burst' ++ after)) := by
  intro h
  rw [registerPoly_shiftIn_eq_iff hpos hsize (by simp [hlen])] at h
  have hdiff : (streamPoly (before ++ burst ++ after) - streamPoly (before ++ burst' ++ after)) *
      X ^ size = (streamPoly burst - streamPoly burst') * X ^ (after.length + size) := by
    simp only [streamPoly_append, hlen, pow_add]
    ring
  rw [hdiff] at h
  have hdvd := (isCoprime_divisor_X_pow hpos hodd (after.length + size)).dvd_of_dvd_mul_right h
  have hdegree : (streamPoly burst - streamPoly burst').degree < (divisor size poly).degree := by
    rw [degree_divisor]
    have hburst := (degree_streamPoly_lt burst).trans_le (Nat.cast_le.mpr hle)
    have hburst' := (degree_streamPoly_lt burst').trans_le (Nat.cast_le.mpr (hlen ▸ hle))
    exact (degree_sub_le _ _).trans_lt (max_lt hburst hburst')
  have hzero := eq_zero_of_dvd_of_degree_lt hdvd hdegree
  exact hne (streamPoly_inj hlen (sub_eq_zero.mp hzero))

end Same

end UniHal.Foundations.BitDivision
