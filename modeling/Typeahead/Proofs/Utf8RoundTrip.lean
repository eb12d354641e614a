import Typeahead.Proofs.CodePoints
import Typeahead.Text.Utf8

/-!
# UTF-8 read back

The bytes of a character are its first byte, which tells how many follow, and bytes that carry six bits each.
Well-formed text is read back from its bytes (`Utf8.decode_encode`).
-/

namespace Typeahead

/-! ## Characters as numbers -/

theorem Text.ofCodePoint_toNat (u : CodeUnit) : ofCodePoint u.toNat = [u] := by
  have hu : u.toNat < 65536 := u.toNat_lt
  rw [ofCodePoint, if_pos hu]
  congr 1
  apply UInt16.toNat_inj.mp
  rw [Nat.toUInt16, UInt16.toNat_ofNat']
  exact Nat.mod_eq_of_lt hu

theorem Text.pairValue_bounds {u v : CodeUnit} (hu : u.isHighSurrogate = true) (hv : v.isLowSurrogate = true) :
    0x10000 ≤ pairValue u v ∧ pairValue u v < 0x110000 := by
  have hhigh := u.isHighSurrogate_iff.mp hu
  have hlow := v.isLowSurrogate_iff.mp hv
  unfold pairValue
  omega

theorem Text.ofCodePoint_pairValue {u v : CodeUnit} (hu : u.isHighSurrogate = true)
    (hv : v.isLowSurrogate = true) : ofCodePoint (pairValue u v) = [u, v] := by
  have hhigh := u.isHighSurrogate_iff.mp hu
  have hlow := v.isLowSurrogate_iff.mp hv
  rw [ofCodePoint, if_neg (by have := (pairValue_bounds hu hv).1; omega)]
  have hfirst : (0xD800 + (pairValue u v - 0x10000) / 0x400).toUInt16 = u := by
    apply UInt16.toNat_inj.mp
    rw [Nat.toUInt16, UInt16.toNat_ofNat']
    unfold pairValue
    omega
  have hsecond : (0xDC00 + (pairValue u v - 0x10000) % 0x400).toUInt16 = v := by
    apply UInt16.toNat_inj.mp
    rw [Nat.toUInt16, UInt16.toNat_ofNat']
    unfold pairValue
    omega
  rw [hfirst, hsecond]

namespace Utf8

theorem toNat_toUInt8 {n : Nat} (h : n < 256) : n.toUInt8.toNat = n := by
  rw [Nat.toUInt8, UInt8.toNat_ofNat']
  exact Nat.mod_eq_of_lt h

/-! ## Bytes of a character -/

theorem decodeFrom_first (b : UInt8) (rest : Bytes) :
    decodeFrom none (b :: rest) = (first b).1 ++ decodeFrom (first b).2 rest := rfl

/-- A byte that goes on with a character, and is not its last. -/
theorem decodeFrom_more {payload more : Nat} {low high b : UInt8} (hlow : low.toNat ≤ b.toNat)
    (hhigh : b.toNat ≤ high.toNat) (rest : Bytes) : decodeFrom (some ⟨payload, more + 2, low, high⟩) (b :: rest) =
      decodeFrom (some ⟨payload * 64 + (b.toNat - 0x80), more + 1, 0x80, 0xBF⟩) rest := by
  have hrange : (low ≤ b && b ≤ high) = true := by
    simp [UInt8.le_iff_toNat_le, hlow, hhigh]
  rw [decodeFrom, if_pos hrange]
  exact if_neg (by simp)

theorem decodeFrom_next {payload more : Nat} {b : UInt8} (hlow : 0x80 ≤ b.toNat) (hhigh : b.toNat ≤ 0xBF)
    (rest : Bytes) : decodeFrom (some ⟨payload, more + 2, 0x80, 0xBF⟩) (b :: rest) =
      decodeFrom (some ⟨payload * 64 + (b.toNat - 0x80), more + 1, 0x80, 0xBF⟩) rest :=
  decodeFrom_more (show (0x80 : UInt8).toNat ≤ b.toNat from hlow) (show b.toNat ≤ (0xBF : UInt8).toNat from hhigh) rest

theorem decodeFrom_last {payload : Nat} {b : UInt8} (hlow : 0x80 ≤ b.toNat) (hhigh : b.toNat ≤ 0xBF)
    (rest : Bytes) : decodeFrom (some ⟨payload, 1, 0x80, 0xBF⟩) (b :: rest) =
      Text.ofCodePoint (payload * 64 + (b.toNat - 0x80)) ++ decodeFrom none rest := by
  have hrange : (0x80 ≤ b && b ≤ 0xBF) = true := by
    simp [UInt8.le_iff_toNat_le, hlow, hhigh]
  rw [decodeFrom, if_pos hrange]
  rfl

theorem first_of_ascii {b : UInt8} (h : b.toNat < 0x80) : first b = ([b.toUInt16], none) := by
  unfold first
  rw [if_pos (UInt8.lt_iff_toNat_lt.mpr h)]

theorem first_of_two {b : UInt8} (hlow : 0xC2 ≤ b.toNat) (hhigh : b.toNat < 0xE0) :
    first b = ([], some ⟨b.toNat - 0xC0, 1, 0x80, 0xBF⟩) := by
  unfold first
  simp only [UInt8.lt_iff_toNat_lt, UInt8.reduceToNat]
  rw [if_neg (by omega), if_neg (by omega), if_pos hhigh]

theorem first_of_three {b : UInt8} (hlow : 0xE0 ≤ b.toNat) (hhigh : b.toNat < 0xF0) : first b =
    ([], some ⟨b.toNat - 0xE0, 2, if b == 0xE0 then 0xA0 else 0x80, if b == 0xED then 0x9F else 0xBF⟩) := by
  unfold first
  simp only [UInt8.lt_iff_toNat_lt, UInt8.reduceToNat]
  rw [if_neg (by omega), if_neg (by omega), if_neg (by omega), if_pos hhigh]

theorem first_of_four {b : UInt8} (hlow : 0xF0 ≤ b.toNat) (hhigh : b.toNat < 0xF5) : first b =
    ([], some ⟨b.toNat - 0xF0, 3, if b == 0xF0 then 0x90 else 0x80, if b == 0xF4 then 0x8F else 0xBF⟩) := by
  unfold first
  simp only [UInt8.lt_iff_toNat_lt, UInt8.reduceToNat]
  rw [if_neg (by omega), if_neg (by omega), if_neg (by omega), if_neg (by omega), if_pos hhigh]

/-- The bounds of the second byte are narrower after some first bytes. -/
theorem bound_le {a b lead low : UInt8} (hb : 0x80 ≤ b.toNat) (h : a.toNat = lead.toNat → low.toNat ≤ b.toNat) :
    (if a == lead then low else 0x80).toNat ≤ b.toNat := by
  split
  · rename_i ha
    exact h (congrArg UInt8.toNat (eq_of_beq ha))
  · exact hb

theorem le_bound {a b lead high : UInt8} (hb : b.toNat ≤ 0xBF) (h : a.toNat = lead.toNat → b.toNat ≤ high.toNat) :
    b.toNat ≤ (if a == lead then high else 0xBF).toNat := by
  split
  · rename_i ha
    exact h (congrArg UInt8.toNat (eq_of_beq ha))
  · exact hb

theorem decodeFrom_two {n : Nat} {a b : UInt8} (ha : a.toNat = 0xC0 + n / 64) (hb : b.toNat = 0x80 + n % 64)
    (hlow : 0x80 ≤ n) (hhigh : n < 0x800) (rest : Bytes) :
    decodeFrom none (a :: b :: rest) = Text.ofCodePoint n ++ decodeFrom none rest := by
  have hn : (a.toNat - 0xC0) * 64 + (b.toNat - 0x80) = n := by omega
  have hb₁ : 0x80 ≤ b.toNat := by omega
  have hb₂ : b.toNat ≤ 0xBF := by omega
  rw [decodeFrom_first, first_of_two (by omega) (by omega), List.nil_append, decodeFrom_last hb₁ hb₂, hn]

/-- The first byte bounds the second, so that neither long forms nor surrogates are read. -/
theorem decodeFrom_three {n : Nat} {a b c : UInt8} (ha : a.toNat = 0xE0 + n / 4096)
    (hb : b.toNat = 0x80 + n / 64 % 64) (hc : c.toNat = 0x80 + n % 64) (hlow : 0x800 ≤ n) (hhigh : n < 0x10000)
    (hsur : n < 0xD800 ∨ 0xE000 ≤ n) (rest : Bytes) :
    decodeFrom none (a :: b :: c :: rest) = Text.ofCodePoint n ++ decodeFrom none rest := by
  have hn : ((a.toNat - 0xE0) * 64 + (b.toNat - 0x80)) * 64 + (c.toNat - 0x80) = n := by omega
  have hb₁ : (if a == 0xE0 then (0xA0 : UInt8) else 0x80).toNat ≤ b.toNat :=
    bound_le (by omega) fun h => by
      have h : a.toNat = 0xE0 := h
      show 0xA0 ≤ b.toNat
      omega
  have hb₂ : b.toNat ≤ (if a == 0xED then (0x9F : UInt8) else 0xBF).toNat :=
    le_bound (by omega) fun h => by
      have h : a.toNat = 0xED := h
      show b.toNat ≤ 0x9F
      omega
  have hc₁ : 0x80 ≤ c.toNat := by omega
  have hc₂ : c.toNat ≤ 0xBF := by omega
  rw [decodeFrom_first, first_of_three (by omega) (by omega), List.nil_append,
    decodeFrom_more hb₁ hb₂, decodeFrom_last hc₁ hc₂, hn]

theorem decodeFrom_four {n : Nat} {a b c d : UInt8} (ha : a.toNat = 0xF0 + n / 262144)
    (hb : b.toNat = 0x80 + n / 4096 % 64) (hc : c.toNat = 0x80 + n / 64 % 64) (hd : d.toNat = 0x80 + n % 64)
    (hlow : 0x10000 ≤ n) (hhigh : n < 0x110000) (rest : Bytes) :
    decodeFrom none (a :: b :: c :: d :: rest) = Text.ofCodePoint n ++ decodeFrom none rest := by
  have hn : (((a.toNat - 0xF0) * 64 + (b.toNat - 0x80)) * 64 + (c.toNat - 0x80)) * 64 + (d.toNat - 0x80) = n := by
    omega
  have hb₁ : (if a == 0xF0 then (0x90 : UInt8) else 0x80).toNat ≤ b.toNat :=
    bound_le (by omega) fun h => by
      have h : a.toNat = 0xF0 := h
      show 0x90 ≤ b.toNat
      omega
  have hb₂ : b.toNat ≤ (if a == 0xF4 then (0x8F : UInt8) else 0xBF).toNat :=
    le_bound (by omega) fun h => by
      have h : a.toNat = 0xF4 := h
      show b.toNat ≤ 0x8F
      omega
  have hc₁ : 0x80 ≤ c.toNat := by omega
  have hc₂ : c.toNat ≤ 0xBF := by omega
  have hd₁ : 0x80 ≤ d.toNat := by omega
  have hd₂ : d.toNat ≤ 0xBF := by omega
  rw [decodeFrom_first, first_of_four (by omega) (by omega), List.nil_append,
    decodeFrom_more hb₁ hb₂, decodeFrom_next hc₁ hc₂, decodeFrom_last hd₁ hd₂, hn]

/-- A character that is no surrogate is read back, whatever follows its bytes. -/
theorem decodeFrom_encodeCodePoint {n : Nat} (hhigh : n < 0x110000) (hn : n < 0xD800 ∨ 0xE000 ≤ n) (rest : Bytes) :
    decodeFrom none (encodeCodePoint n ++ rest) = Text.ofCodePoint n ++ decodeFrom none rest := by
  have htail (k : Nat) : (0x80 + k % 64).toUInt8.toNat = 0x80 + k % 64 := toNat_toUInt8 (by omega)
  unfold encodeCodePoint
  by_cases h₁ : n < 0x80
  · have hb : n.toUInt8.toNat = n := toNat_toUInt8 (by omega)
    have hu : n.toUInt8.toUInt16.toNat = n := by rw [UInt8.toNat_toUInt16, hb]
    rw [if_pos h₁, List.singleton_append, decodeFrom_first, first_of_ascii (by omega), ← Text.ofCodePoint_toNat, hu]
  · rw [if_neg h₁]
    by_cases h₂ : n < 0x800
    · rw [if_pos h₂]
      exact decodeFrom_two (toNat_toUInt8 (by omega)) (htail n) (by omega) h₂ rest
    · have hsur : (0xD800 ≤ n && n < 0xE000) = false := by
        simp only [Bool.and_eq_false_iff, decide_eq_false_iff_not]
        omega
      rw [if_neg h₂, hsur, if_neg Bool.false_ne_true]
      by_cases h₃ : n < 0x10000
      · rw [if_pos h₃]
        exact decodeFrom_three (toNat_toUInt8 (by omega)) (htail _) (htail n) (by omega) h₃ hn rest
      · rw [if_neg h₃]
        exact decodeFrom_four (toNat_toUInt8 (by omega)) (htail _) (htail _) (htail n) (by omega) hhigh rest

theorem encode_unit {u : CodeUnit} (hu : u.isSurrogate = false) (t : Text) :
    encode (u :: t) = encodeCodePoint u.toNat ++ encode t := by
  unfold encode
  rw [Text.codePoints_cons (CodeUnit.isHighSurrogate_of_not_isSurrogate hu), List.flatMap_cons]
  rfl

theorem encode_pair {u v : CodeUnit} (hu : u.isHighSurrogate = true) (hv : v.isLowSurrogate = true) (t : Text) :
    encode (u :: v :: t) = encodeCodePoint (Text.pairValue u v) ++ encode t := by
  unfold encode
  rw [Text.codePoints_pair hu hv, List.flatMap_cons]
  rfl

/-- Well-formed text is read back from its bytes. -/
theorem decode_encode {t : Text} (h : t.WellFormed) : decode (encode t) = t := by
  unfold decode
  induction h with
  | nil => rfl
  | @unit u t hu _ ih =>
    have hn := u.isSurrogate_eq_false_iff.mp hu
    have hlt : u.toNat < 65536 := u.toNat_lt
    rw [encode_unit hu, decodeFrom_encodeCodePoint (by omega) hn, ih, Text.ofCodePoint_toNat]
    rfl
  | @pair u v t hu hv _ ih =>
    obtain ⟨hlow, hhigh⟩ := Text.pairValue_bounds hu hv
    rw [encode_pair hu hv, decodeFrom_encodeCodePoint hhigh (by omega), ih, Text.ofCodePoint_pairValue hu hv]
    rfl

end Utf8

end Typeahead
