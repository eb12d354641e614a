import Typeahead.Number.Format
import Typeahead.Number.Read

/-!
# Whole numbers

Every whole number up to `2 ^ 53` is a number of the 64-bit format as it is, without rounding.  Its text is
its decimal digits, and the digits read as the number again.
-/

namespace Typeahead

/-! ## Digits -/

namespace Text

theorem digits_of_lt {base n : Nat} (h : n < base) : digits base n = [CodeUnit.ofChar n.digitChar] := by
  rw [digits, Nat.toDigits_of_lt_base h]
  rfl

theorem digits_of_ge {base n : Nat} (hb : 1 < base) (h : base ≤ n) :
    digits base n = digits base (n / base) ++ [CodeUnit.ofChar (n % base).digitChar] := by
  rw [digits, Nat.toDigits_of_base_le hb h, List.map_append]
  rfl

theorem digits_ne_nil (n : Nat) : digits 10 n ≠ [] := by
  intro h
  exact Nat.toDigits_ne_nil (List.map_eq_nil_iff.mp h)

/-- The unit of a digit, as a unit and as a number. -/
theorem digitChar_spec : ∀ d, d < 10 → (CodeUnit.ofChar d.digitChar).toNat = 0x30 + d ∧
    (CodeUnit.ofChar d.digitChar).isDigit = true ∧ (CodeUnit.ofChar d.digitChar).digitValue? = some d := by
  decide

theorem isDigit_ofChar {c : Char} (h : c.isDigit = true) : (CodeUnit.ofChar c).isDigit = true := by
  have hc : 0x30 ≤ c.val.toNat ∧ c.val.toNat ≤ 0x39 := by
    simpa [Char.isDigit, UInt32.le_iff_toNat_le] using h
  have hunit : (CodeUnit.ofChar c).toNat = c.val.toNat := by
    rw [CodeUnit.ofChar, UInt32.toNat_toUInt16]
    omega
  simp only [CodeUnit.isDigit, UInt16.le_iff_toNat_le, hunit, Bool.and_eq_true, decide_eq_true_eq]
  exact hc

/-- Digits of a base up to ten. -/
theorem isDigit_of_mem_digits_of_le {base n : Nat} (hb : 0 < base) (h10 : base ≤ 10) {u : CodeUnit}
    (h : u ∈ digits base n) : u.isDigit = true := by
  obtain ⟨c, hc, rfl⟩ := List.mem_map.mp h
  exact isDigit_ofChar (Nat.isDigit_of_mem_toDigits hb h10 hc)

theorem isDigit_of_mem_digits {n : Nat} {u : CodeUnit} (h : u ∈ digits 10 n) : u.isDigit = true :=
  isDigit_of_mem_digits_of_le (by decide) (by decide) h

theorem digitsValue_snoc (base : Nat) (t : Text) (u : CodeUnit) :
    digitsValue base (t ++ [u]) = digitsValue base t * base + u.digitValue?.getD 0 := by
  simp [digitsValue]

/-- A number is read back from its digits in a base up to ten. -/
theorem digitsValue_digits_of_le {base : Nat} (hb : 1 < base) (h10 : base ≤ 10) (n : Nat) :
    digitsValue base (digits base n) = n := by
  induction n using Nat.strongRecOn with
  | ind n ih =>
    by_cases hn : n < base
    · rw [digits_of_lt hn, ← List.nil_append [_], digitsValue_snoc, (digitChar_spec n (by omega)).2.2]
      simp [digitsValue]
    · have hmod : n % base < base := Nat.mod_lt n (by omega)
      rw [digits_of_ge hb (by omega), digitsValue_snoc, ih (n / base) (Nat.div_lt_self (by omega) hb),
        (digitChar_spec (n % base) (by omega)).2.2]
      exact Nat.div_add_mod' n base

theorem digitsValue_digits (n : Nat) : digitsValue 10 (digits 10 n) = n :=
  digitsValue_digits_of_le (by decide) (by decide) n

theorem head?_append_of_ne_nil {t : Text} (ht : t ≠ []) (rest : Text) : (t ++ rest).head? = t.head? := by
  cases t with
  | nil => exact absurd rfl ht
  | cons u t => rfl

/-- Only zero has a zero in front. -/
theorem eq_zero_of_head_digits {n : Nat} (h : (digits 10 n).head? = some 0x30) : n = 0 := by
  induction n using Nat.strongRecOn with
  | ind n ih =>
    by_cases hn : n < 10
    · rw [digits_of_lt hn] at h
      have hu : (CodeUnit.ofChar n.digitChar).toNat = 0x30 := congrArg UInt16.toNat (Option.some.inj h)
      have hd := (digitChar_spec n hn).1
      omega
    · rw [digits_of_ge (by decide) (by omega), head?_append_of_ne_nil (digits_ne_nil _)] at h
      have hq : n / 10 = 0 := ih (n / 10) (by omega) h
      omega

end Text

/-! ## Numbers -/

namespace Binary64

-- The number model spells powers with `Nat.pow`, which the lemmas about `^` do not rewrite.

theorem pow_two_pos (k : Nat) : 0 < Nat.pow 2 k := Nat.pow_pos Nat.two_pos

theorem pow_two_add (j k : Nat) : Nat.pow 2 (j + k) = Nat.pow 2 j * Nat.pow 2 k := Nat.pow_add 2 j k

theorem roundDiv_mul {n d : Nat} (hd : 0 < d) : roundDiv (n * d) d = n := by
  have hmod : n * d % d = 0 := Nat.mul_mod_left n d
  have hdiv : n * d / d = n := Nat.mul_div_cancel n hd
  unfold roundDiv
  rw [hmod, hdiv]
  rw [if_neg]
  simp only [Nat.mul_zero, Nat.not_lt_zero, decide_false, Bool.false_or, Bool.and_eq_true, beq_iff_eq]
  omega

theorem exponentFor_one {n : Nat} (hn : n ≠ 0) : exponentFor n 1 = (Nat.log2 n : Int) - 52 := by
  have htop : Nat.pow 2 (Nat.log2 n) ≤ n := Nat.log2_self_le hn
  have hlog : Nat.log2 1 = 0 := by decide
  have hzero : (-(Nat.log2 n : Int)).toNat = 0 := by omega
  unfold exponentFor
  simp only [hlog, Int.ofNat_zero, Int.sub_zero, Int.toNat_natCast, hzero, Nat.one_mul, minExponent]
  rw [if_pos (by rw [show Nat.pow 2 0 = 1 from rfl, Nat.mul_one]; exact htop)]
  omega

/-- Scaled to 53 bits, a smaller whole number keeps its value. -/
theorem ofNat_of_lt {n : Nat} (hn : n ≠ 0) (h : n < Nat.pow 2 53) :
    Binary64.ofNat n = .finite false (n * Nat.pow 2 (52 - Nat.log2 n)) ((Nat.log2 n : Int) - 52) := by
  have hlog : Nat.log2 n < 53 := (Nat.log2_lt hn).mpr h
  have hround : roundDiv (n * Nat.pow 2 (52 - Nat.log2 n)) (1 * Nat.pow 2 0) = n * Nat.pow 2 (52 - Nat.log2 n) := by
    have hone := roundDiv_mul (n := n * Nat.pow 2 (52 - Nat.log2 n)) Nat.one_pos
    rwa [Nat.mul_one] at hone
  have hlt : n * Nat.pow 2 (52 - Nat.log2 n) < Nat.pow 2 53 := by
    have hself : n < Nat.pow 2 (Nat.log2 n + 1) := Nat.lt_log2_self
    calc n * Nat.pow 2 (52 - Nat.log2 n)
        < Nat.pow 2 (Nat.log2 n + 1) * Nat.pow 2 (52 - Nat.log2 n) :=
          Nat.mul_lt_mul_of_pos_right hself (pow_two_pos _)
      _ = Nat.pow 2 (Nat.log2 n + 1 + (52 - Nat.log2 n)) := (pow_two_add _ _).symm
      _ = Nat.pow 2 53 := by rw [show Nat.log2 n + 1 + (52 - Nat.log2 n) = 53 by omega]
  have hmax : (n * Nat.pow 2 (52 - Nat.log2 n) == Nat.pow 2 53) = false := by
    rw [beq_eq_false_iff_ne]
    exact Nat.ne_of_lt hlt
  have hneg : (-((Nat.log2 n : Int) - 52)).toNat = 52 - Nat.log2 n := by omega
  have hpos : ((Nat.log2 n : Int) - 52).toNat = 0 := by omega
  have hexp : ¬ maxExponent < (Nat.log2 n : Int) - 52 := by
    unfold maxExponent
    omega
  unfold ofNat ofFraction
  rw [if_neg (by simpa using hn)]
  simp only [exponentFor_one hn, hneg, hpos, hround, hmax, Bool.false_eq_true, if_false, hexp]

/-- Whole numbers up to `2 ^ 53` are not rounded. -/
theorem ofNat_eq {n : Nat} (h : n ≤ Nat.pow 2 53) :
    ∃ m e, Binary64.ofNat n = .finite false m e ∧ magnitude m e = n * Nat.pow 2 (-minExponent).toNat := by
  by_cases hn : n = 0
  · subst hn
    exact ⟨0, minExponent, rfl, by rw [magnitude, Nat.zero_mul, Nat.zero_mul]⟩
  by_cases hmax : n = Nat.pow 2 53
  · subst hmax
    refine ⟨Nat.pow 2 52, 1, by decide +kernel, ?_⟩
    have hexp : (1 - minExponent).toNat = 1 + (-minExponent).toNat := by decide
    rw [magnitude, hexp, pow_two_add, ← Nat.mul_assoc]
  · have hlog : Nat.log2 n < 53 := (Nat.log2_lt hn).mpr (Nat.lt_of_le_of_ne h hmax)
    refine ⟨_, _, ofNat_of_lt hn (Nat.lt_of_le_of_ne h hmax), ?_⟩
    have hexp : (((Nat.log2 n : Int) - 52) - minExponent).toNat + (52 - Nat.log2 n) = (-minExponent).toNat := by
      unfold minExponent
      omega
    rw [magnitude, Nat.mul_assoc, ← hexp, Nat.add_comm, pow_two_add]

theorem ofNat_isFinite {n : Nat} (h : n ≤ Nat.pow 2 53) : (Binary64.ofNat n).isFinite = true := by
  obtain ⟨m, e, hfinite, -⟩ := ofNat_eq h
  rw [hfinite]
  rfl

/-- A finite number that is not negative; the zero with a minus sign is one. -/
def NonNegative (x : Binary64) : Prop := ∃ negative m e, x = .finite negative m e ∧ 0 ≤ units negative m e

theorem isDuration_iff (x : Binary64) : x.isDuration = true ↔ x.NonNegative := by
  cases x with
  | nan => simp [isDuration, isFinite, NonNegative]
  | infinity s => simp [isDuration, isFinite, NonNegative]
  | finite s m e =>
    have hzero : units false 0 minExponent = 0 := by
      simp [units, magnitude]
    have hless : (Binary64.finite s m e).less 0 = decide (units s m e < units false 0 minExponent) := rfl
    have hiff : (Binary64.finite s m e).isDuration = true ↔ 0 ≤ units s m e := by
      simp [isDuration, isFinite, hless, hzero]
    rw [hiff]
    constructor
    · intro h
      exact ⟨s, m, e, rfl, h⟩
    · rintro ⟨s', m', e', heq, h⟩
      cases heq
      exact h

theorem ofNat_isDuration {n : Nat} (h : n ≤ Nat.pow 2 53) : (Binary64.ofNat n).isDuration = true := by
  obtain ⟨m, e, hfinite, -⟩ := ofNat_eq h
  exact (isDuration_iff _).mpr ⟨false, m, e, hfinite, Int.natCast_nonneg _⟩

theorem whole?_ofNat {n : Nat} (h : n ≤ Nat.pow 2 53) : whole? (Binary64.ofNat n) = some (n : Int) := by
  obtain ⟨m, e, hfinite, hvalue⟩ := ofNat_eq h
  have hunits : units false m e = (n : Int) * (Nat.pow 2 (-minExponent).toNat : Nat) := by
    show ((magnitude m e : Nat) : Int) = _
    rw [hvalue, Int.natCast_mul]
  have hpos : ((Nat.pow 2 (-minExponent).toNat : Nat) : Int) ≠ 0 :=
    Int.natCast_ne_zero.mpr (Nat.ne_of_gt (pow_two_pos _))
  rw [hfinite]
  unfold whole?
  simp only [hunits, Int.mul_emod_left, if_true, Int.mul_ediv_cancel _ hpos]

/-! ## Text -/

theorem toText_ofNat {n : Nat} (h : n ≤ Nat.pow 2 53) : (Binary64.ofNat n).toText = Text.digits 10 n := by
  by_cases hn : n = 0
  · subst hn
    decide
  have hwhole := whole?_ofNat h
  obtain ⟨m, e, hfinite, hvalue⟩ := ofNat_eq h
  have hm : (m == 0) = false := by
    rw [beq_eq_false_iff_ne]
    intro hm
    subst hm
    rw [magnitude, Nat.zero_mul] at hvalue
    rcases Nat.mul_eq_zero.mp hvalue.symm with hzero | hzero
    · exact hn hzero
    · exact absurd hzero (Nat.ne_of_gt (pow_two_pos _))
  rw [hfinite] at hwhole ⊢
  simp only [toText, hm, Bool.false_eq_true, if_false, magnitudeText, hwhole, Int.toNat_natCast, h, if_true]

/-- Decimal digits are read as the number they spell. -/
theorem ofDecimal_digits {n : Nat} (h : n ≤ Nat.pow 2 53) : ofDecimal false ⟨n, 0⟩ = Binary64.ofNat n := by
  have hlen : (Nat.toDigits 10 n).length ≤ 16 := by
    rw [Nat.length_toDigits_le_iff (by decide) (by decide)]
    exact Nat.lt_of_le_of_lt h (by decide)
  unfold ofDecimal
  by_cases hn : n = 0
  · subst hn
    rfl
  · have hsize : ¬ (400 : Int) < (Nat.toDigits 10 n).length + 0 := by omega
    have hsize' : ¬ ((Nat.toDigits 10 n).length : Int) + 0 < -400 := by omega
    simp only [beq_iff_eq, hn, hsize, hsize', if_false]
    rw [ofNat, show (0 : Int).toNat = 0 from rfl, show (-(0 : Int)).toNat = 0 from rfl,
      show Nat.pow 10 0 = 1 from rfl, Nat.mul_one]

end Binary64

namespace DecimalLiteral

/-- Digits are taken as they are, if what follows goes on with no number. -/
theorem scan_digits (n : Nat) {rest : Text}
    (hrest : ∀ u ∈ rest.head?, u.isDigit = false ∧ u ≠ 0x2E ∧ u ≠ 0x65 ∧ u ≠ 0x45) :
    scan (Text.digits 10 n ++ rest) = (⟨Text.digits 10 n, none, none⟩, rest) := by
  have htake : (Text.digits 10 n ++ rest).takeWhile CodeUnit.isDigit = Text.digits 10 n := by
    rw [List.takeWhile_append_of_pos fun u hu => Text.isDigit_of_mem_digits hu]
    cases rest with
    | nil => simp
    | cons u rest => simp [(hrest u rfl).1]
  have hdrop : (Text.digits 10 n ++ rest).dropWhile CodeUnit.isDigit = rest := by
    rw [List.dropWhile_append_of_pos fun u hu => Text.isDigit_of_mem_digits hu]
    cases rest with
    | nil => rfl
    | cons u rest => simp [(hrest u rfl).1]
  have hfraction : scanFraction rest = (none, rest) := by
    cases rest with
    | nil => rfl
    | cons u rest =>
      unfold scanFraction
      split
      · rename_i h
        exact absurd (List.cons.inj h).1 (hrest u rfl).2.1
      · rfl
  have hexponent : scanExponent rest = (none, rest) := by
    cases rest with
    | nil => rfl
    | cons u rest =>
      have hmark : (u == 0x65 || u == 0x45) = false := by simp [(hrest u rfl).2.2]
      simp [scanExponent, hmark]
  simp only [scan, scanDigits, htake, hdrop, hfraction, hexponent]

theorem value_digits {n : Nat} (h : n ≤ Nat.pow 2 53) :
    (⟨Text.digits 10 n, none, none⟩ : DecimalLiteral).value false = Binary64.ofNat n := by
  simp only [value, exponentValue, Option.getD_none, List.append_nil, List.length_nil, Text.digitsValue_digits]
  exact Binary64.ofDecimal_digits h

end DecimalLiteral

end Typeahead
