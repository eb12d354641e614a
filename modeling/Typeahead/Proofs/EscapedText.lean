import Typeahead.Echo.Mismatch
import Typeahead.Proofs.WholeNumbers

/-!
# Escaped text has no controls

Whatever a text holds, its readable form has neither C0 nor C1 controls nor a delete in it, so it stands on one
line and does nothing to a terminal (`Text.escaped_readable`).  The same holds of every line that is kept of a
mismatch.
-/

namespace Typeahead

open Text (ofString)

def CodeUnit.isControl (u : CodeUnit) : Bool := u < 0x20 || u == Control.delete || Control.isC1 u

theorem CodeUnit.isControl_eq_false_iff (u : CodeUnit) :
    u.isControl = false ↔ 0x20 ≤ u.toNat ∧ u.toNat < 0x7F ∨ 0x9F < u.toNat := by
  simp only [isControl, Control.isC1, Control.delete, Bool.or_eq_false_iff, Bool.and_eq_false_iff,
    decide_eq_false_iff_not, beq_eq_false_iff_ne, ne_eq, ← UInt16.toNat_inj, UInt16.le_iff_toNat_le,
    UInt16.lt_iff_toNat_lt, UInt16.reduceToNat]
  omega

theorem CodeUnit.isControl_of_isDigit {u : CodeUnit} (h : u.isDigit = true) : u.isControl = false := by
  simp only [isDigit, Bool.and_eq_true, decide_eq_true_eq, UInt16.le_iff_toNat_le, UInt16.reduceToNat] at h
  rw [isControl_eq_false_iff]
  omega

namespace Text

/-- No control stands in the text. -/
def Readable (t : Text) : Prop := ∀ u ∈ t, u.isControl = false

instance (t : Text) : Decidable t.Readable := List.decidableBAll (fun u : CodeUnit => u.isControl = false) t

theorem Readable.append {a b : Text} (ha : a.Readable) (hb : b.Readable) : (a ++ b).Readable :=
  List.forall_mem_append.mpr ⟨ha, hb⟩

theorem Readable.lineFeed_notMem {t : Text} (h : t.Readable) : Control.lineFeed ∉ t := by
  intro hmem
  cases h _ hmem

theorem digits_readable {base : Nat} (hb : 0 < base) (h10 : base ≤ 10) (n : Nat) : (digits base n).Readable := by
  intro u hu
  apply CodeUnit.isControl_of_isDigit
  exact isDigit_of_mem_digits_of_le hb h10 hu

/-! ## The form of one unit -/

def backslash : CodeUnit := 0x5C

def lettered : List (CodeUnit × CodeUnit) :=
  [(Control.backspace, 0x62), (Control.lineFeed, 0x6E), (Control.carriageReturn, 0x72), (0x09, 0x74)]

/-- A control is written with a letter or a number, any other unit as it is. -/
theorem escapedUnit_cases (u : CodeUnit) :
    (∃ letter, (u, letter) ∈ lettered ∧ escapedUnit u = [backslash, letter]) ∨
    (u.isControl = true ∧ escapedUnit u = backslash :: digits 8 u.toNat) ∨
    (u.isControl = false ∧ escapedUnit u = [u]) := by
  unfold escapedUnit
  by_cases hb : (u == Control.backspace) = true
  · rw [if_pos hb, eq_of_beq hb]
    exact Or.inl ⟨0x62, by decide, rfl⟩
  rw [if_neg hb]
  by_cases hl : (u == Control.lineFeed) = true
  · rw [if_pos hl, eq_of_beq hl]
    exact Or.inl ⟨0x6E, by decide, rfl⟩
  rw [if_neg hl]
  by_cases hc : (u == Control.carriageReturn) = true
  · rw [if_pos hc, eq_of_beq hc]
    exact Or.inl ⟨0x72, by decide, rfl⟩
  rw [if_neg hc]
  by_cases ht : (u == 0x09) = true
  · rw [if_pos ht, eq_of_beq ht]
    exact Or.inl ⟨0x74, by decide, rfl⟩
  rw [if_neg ht]
  by_cases hcontrol : u.isControl = true
  · exact Or.inr (Or.inl ⟨hcontrol, if_pos hcontrol⟩)
  · exact Or.inr (Or.inr ⟨Bool.eq_false_iff.mpr hcontrol, if_neg hcontrol⟩)

theorem readable_of_lettered : ∀ p ∈ lettered, p.2.isControl = false := by
  simp [lettered, CodeUnit.isControl_eq_false_iff]

theorem escapedUnit_readable (u : CodeUnit) : (escapedUnit u).Readable := by
  rcases escapedUnit_cases u with ⟨letter, hmem, heq⟩ | ⟨-, heq⟩ | ⟨hu, heq⟩
  · rw [heq]
    have hletter := readable_of_lettered _ hmem
    exact List.forall_mem_cons.mpr ⟨by decide, List.forall_mem_singleton.mpr hletter⟩
  · rw [heq]
    exact List.forall_mem_cons.mpr ⟨by decide, digits_readable (by decide) (by decide) _⟩
  · rw [heq]
    exact List.forall_mem_singleton.mpr hu

theorem escaped_readable (t : Text) : t.escaped.Readable := by
  intro u hu
  obtain ⟨v, -, hv⟩ := List.mem_flatMap.mp hu
  exact escapedUnit_readable v u hv

end Text

theorem Mismatch.entry_readable (m : Mismatch) : m.entry.Readable := by
  unfold entry
  apply Text.Readable.append _ (by decide)
  apply Text.Readable.append _ (Text.escaped_readable _)
  apply Text.Readable.append _ (by decide)
  exact Text.Readable.append (by decide) (Text.escaped_readable _)

end Typeahead
