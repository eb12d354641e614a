import Mathlib.Data.Nat.Find
import Mathlib.Logic.ExistsUnique
import Typeahead.Proofs.EscapedText

/-!
# Texts with one readable form

A backslash stands for itself, and nothing marks where the number of a control ends.  So different texts may have
one readable form: a control and its form spelled out, or `ESC` and `U+0003` with the digit `3` behind it.  A text is
clear if each of its units is written in the longest form that can be read at that place; every text shares its form
with exactly one clear text (`Text.escaped_shared`).
-/

namespace Typeahead

namespace Text

/-! ## Units told by their forms -/

theorem isControl_of_lettered : ∀ p ∈ lettered, p.1.isControl = true := by
  apply List.all_eq_true.mp
  decide

theorem not_isDigit_of_lettered : ∀ p ∈ lettered, p.2.isDigit = false := by
  simp [lettered, CodeUnit.isDigit]

theorem lettered_inj : ∀ p ∈ lettered, ∀ q ∈ lettered, p.2 = q.2 → p.1 = q.1 := by
  simp [lettered]

theorem escapedUnit_of_not_isControl {u : CodeUnit} (h : u.isControl = false) : escapedUnit u = [u] := by
  rcases escapedUnit_cases u with ⟨letter, hmem, -⟩ | ⟨hcontrol, -⟩ | ⟨-, heq⟩
  · have hcontrol := isControl_of_lettered _ hmem
    rw [h] at hcontrol
    cases hcontrol
  · rw [h] at hcontrol
    cases hcontrol
  · exact heq

theorem digits_eight_ne_nil (n : Nat) : digits 8 n ≠ [] := by
  intro h
  exact Nat.toDigits_ne_nil (List.map_eq_nil_iff.mp h)

/-- A control is written with a backslash and more. -/
theorem escapedUnit_of_isControl {u : CodeUnit} (h : u.isControl = true) :
    ∃ v w, escapedUnit u = backslash :: v :: w := by
  rcases escapedUnit_cases u with ⟨letter, -, heq⟩ | ⟨-, heq⟩ | ⟨hnot, -⟩
  · exact ⟨letter, [], heq⟩
  · obtain ⟨v, w, hdigits⟩ := List.exists_cons_of_ne_nil (digits_eight_ne_nil u.toNat)
    exact ⟨v, w, by rw [heq, hdigits]⟩
  · rw [h] at hnot
    cases hnot

theorem escapedUnit_length_pos (u : CodeUnit) : 0 < (escapedUnit u).length := by
  cases h : u.isControl with
  | true =>
    obtain ⟨v, w, heq⟩ := escapedUnit_of_isControl h
    simp [heq]
  | false => simp [escapedUnit_of_not_isControl h]

theorem isDigit_of_mem_octal {n : Nat} {u : CodeUnit} (h : u ∈ digits 8 n) : u.isDigit = true :=
  isDigit_of_mem_digits_of_le (by decide) (by decide) h

theorem escapedUnit_inj {u v : CodeUnit} (h : escapedUnit u = escapedUnit v) (hu : u.isControl = v.isControl) :
    u = v := by
  have hletter {n : Nat} {p : CodeUnit × CodeUnit} (hp : p ∈ lettered) (heq : [p.2] = digits 8 n) : False := by
    have hdigit := isDigit_of_mem_octal (heq ▸ List.mem_singleton_self p.2)
    rw [not_isDigit_of_lettered p hp] at hdigit
    cases hdigit
  rcases escapedUnit_cases u with ⟨a, ha, hau⟩ | ⟨hcu, hau⟩ | ⟨hcu, hau⟩
  all_goals rcases escapedUnit_cases v with ⟨b, hb, hbv⟩ | ⟨hcv, hbv⟩ | ⟨hcv, hbv⟩
  all_goals rw [hau, hbv] at h
  · exact lettered_inj _ ha _ hb (by simpa using h)
  · exact (hletter ha (List.cons.inj h).2).elim
  · rw [isControl_of_lettered _ ha, hcv] at hu
    cases hu
  · exact (hletter hb (List.cons.inj h).2.symm).elim
  · have hvalue := congrArg (digitsValue 8) (List.cons.inj h).2
    rw [digitsValue_digits_of_le (by decide) (by decide), digitsValue_digits_of_le (by decide) (by decide)] at hvalue
    exact UInt16.toNat_inj.mp hvalue
  · rw [hcu, hcv] at hu
    cases hu
  · rw [isControl_of_lettered _ hb, hcu] at hu
    cases hu
  · rw [hcu, hcv] at hu
    cases hu
  · exact (List.cons.inj h).1

/-! ## Clear texts -/

theorem escaped_cons (u : CodeUnit) (t : Text) : escaped (u :: t) = escapedUnit u ++ escaped t := rfl

/-- At no place can a longer form be read than that of the unit that is written there. -/
def Clear : Text → Prop
  | [] => True
  | u :: t => (∀ v, v.isControl = true → escapedUnit v <+: escaped (u :: t) →
      (escapedUnit v).length ≤ (escapedUnit u).length) ∧ Clear t

theorem Clear.length_le {u v : CodeUnit} {s t : Text} (ht : Clear (v :: t)) (h : escaped (u :: s) = escaped (v :: t)) :
    (escapedUnit u).length ≤ (escapedUnit v).length := by
  cases hu : u.isControl with
  | true =>
    apply ht.1 u hu
    rw [← h, escaped_cons]
    exact List.prefix_append _ _
  | false =>
    rw [escapedUnit_of_not_isControl hu]
    exact escapedUnit_length_pos v

theorem isControl_of_length_eq {u v : CodeUnit} (h : (escapedUnit u).length = (escapedUnit v).length)
    (hu : u.isControl = true) : v.isControl = true := by
  by_contra hv
  obtain ⟨a, b, heq⟩ := escapedUnit_of_isControl hu
  rw [heq, escapedUnit_of_not_isControl (Bool.eq_false_iff.mpr hv)] at h
  simp at h

theorem isControl_eq_of_length_eq {u v : CodeUnit} (h : (escapedUnit u).length = (escapedUnit v).length) :
    u.isControl = v.isControl :=
  Bool.eq_iff_iff.mpr ⟨isControl_of_length_eq h, isControl_of_length_eq h.symm⟩

/-- If the first units have forms of one length, they and the forms of the rest agree. -/
theorem escaped_cons_inj {u v : CodeUnit} {s t : Text} (h : escaped (u :: s) = escaped (v :: t))
    (hlen : (escapedUnit u).length = (escapedUnit v).length) : u = v ∧ escaped s = escaped t := by
  obtain ⟨hunit, hrest⟩ := List.append_inj h hlen
  exact ⟨escapedUnit_inj hunit (isControl_eq_of_length_eq hlen), hrest⟩

theorem escaped_cons_ne_nil (u : CodeUnit) (t : Text) : escaped (u :: t) ≠ [] := by
  intro h
  have hpos := escapedUnit_length_pos u
  rw [(List.append_eq_nil_iff.mp h).1] at hpos
  exact Nat.lt_irrefl 0 hpos

theorem Clear.unique : ∀ {s t : Text}, Clear s → Clear t → escaped s = escaped t → s = t
  | [], [], _, _, _ => rfl
  | [], v :: t, _, _, h => absurd h.symm (escaped_cons_ne_nil v t)
  | u :: s, [], _, _, h => absurd h (escaped_cons_ne_nil u s)
  | u :: s, v :: t, hs, ht, h => by
    have hlen := Nat.le_antisymm (ht.length_le h) (hs.length_le h.symm)
    obtain ⟨rfl, hrest⟩ := escaped_cons_inj h hlen
    rw [Clear.unique hs.2 ht.2 hrest]

/-- Of the forms that can be read at the head of a text one is longest. -/
theorem exists_longest {w : Text} (h : ∃ u : CodeUnit, u.isControl = true ∧ escapedUnit u <+: w) :
    ∃ u : CodeUnit, u.isControl = true ∧ escapedUnit u <+: w ∧ ∀ v : CodeUnit, v.isControl = true →
      escapedUnit v <+: w → (escapedUnit v).length ≤ (escapedUnit u).length := by
  classical
  let Fits (n : Nat) : Prop := ∃ u : CodeUnit, u.isControl = true ∧ escapedUnit u <+: w ∧ (escapedUnit u).length = n
  obtain ⟨u, hu, hpre⟩ := h
  obtain ⟨longest, hlongest, hfits, hlen⟩ : Fits (Nat.findGreatest Fits w.length) :=
    Nat.findGreatest_spec hpre.length_le ⟨u, hu, hpre, rfl⟩
  refine ⟨longest, hlongest, hfits, ?_⟩
  intro v hv hvpre
  rw [hlen]
  exact Nat.le_findGreatest hvpre.length_le ⟨v, hv, hvpre, rfl⟩

/-- A text without controls is the form of a clear text: at each place the longest form is read. -/
theorem exists_clear : ∀ w : Text, w.Readable → ∃ t, Clear t ∧ escaped t = w
  | [], _ => ⟨[], trivial, rfl⟩
  | x :: rest, hw => by
    by_cases h : ∃ u : CodeUnit, u.isControl = true ∧ escapedUnit u <+: x :: rest
    · obtain ⟨u, -, ⟨later, hlater⟩, hlongest⟩ := exists_longest h
      have hlt : later.length < (x :: rest).length := by
        have hpos := escapedUnit_length_pos u
        rw [← hlater, List.length_append]
        omega
      have hreadable : Readable later := by
        intro v hv
        apply hw
        rw [← hlater]
        exact List.mem_append_right _ hv
      obtain ⟨t, ht, rfl⟩ := exists_clear later hreadable
      rw [← hlater] at hlongest ⊢
      exact ⟨u :: t, ⟨hlongest, ht⟩, rfl⟩
    · obtain ⟨hx, hrest⟩ := List.forall_mem_cons.mp hw
      obtain ⟨t, ht, rfl⟩ := exists_clear rest hrest
      have hform : escaped (x :: t) = x :: escaped t := by
        rw [escaped_cons, escapedUnit_of_not_isControl hx]
        rfl
      refine ⟨x :: t, ⟨?_, ht⟩, hform⟩
      intro v hv hpre
      rw [hform] at hpre
      exact absurd ⟨v, hv, hpre⟩ h
termination_by w => w.length
decreasing_by
  · exact hlt
  · exact Nat.lt_add_one _

/-! ## Forms that tell their text -/

theorem escaped_of_readable : ∀ {t : Text}, t.Readable → escaped t = t
  | [], _ => rfl
  | u :: t, h => by
    obtain ⟨hu, ht⟩ := List.forall_mem_cons.mp h
    rw [escaped_cons, escapedUnit_of_not_isControl hu, escaped_of_readable ht]
    rfl

/-- A clear text without controls shares its form with no other text. -/
theorem Clear.eq_of_readable : ∀ {s t : Text}, Clear t → t.Readable → escaped s = escaped t → s = t
  | [], [], _, _, _ => rfl
  | [], v :: t, _, _, h => absurd h.symm (escaped_cons_ne_nil v t)
  | u :: s, [], _, _, h => absurd h (escaped_cons_ne_nil u s)
  | u :: s, v :: t, hclear, hreadable, h => by
    obtain ⟨hv, ht⟩ := List.forall_mem_cons.mp hreadable
    have hle := hclear.length_le h
    have hpos := escapedUnit_length_pos u
    have hone : (escapedUnit v).length = 1 := by rw [escapedUnit_of_not_isControl hv]; rfl
    obtain ⟨rfl, hrest⟩ := escaped_cons_inj h (by omega)
    rw [Clear.eq_of_readable hclear.2 ht hrest]

theorem eq_of_head_escaped {d : CodeUnit} {t rest : Text} (h : escaped t = d :: rest) (hd : d ≠ backslash) :
    ∃ t', t = d :: t' := by
  cases t with
  | nil => cases h
  | cons x t =>
    rw [escaped_cons] at h
    cases hx : x.isControl with
    | true =>
      obtain ⟨a, b, heq⟩ := escapedUnit_of_isControl hx
      rw [heq] at h
      exact absurd (List.cons.inj h).1.symm hd
    | false =>
      rw [escapedUnit_of_not_isControl hx] at h
      exact ⟨t, by rw [(List.cons.inj h).1]⟩

/-- The form of a control goes on, as that of another, with a digit. -/
theorem digit_of_escapedUnit_append {u v : CodeUnit} (hu : u.isControl = true) (hv : v.isControl = true) {d : CodeUnit}
    {w : Text} (h : escapedUnit u ++ d :: w = escapedUnit v) : d.isDigit = true := by
  obtain ⟨a, b, hform⟩ := escapedUnit_of_isControl hu
  rw [hform] at h
  rcases escapedUnit_cases v with ⟨letter, -, heq⟩ | ⟨-, heq⟩ | ⟨hnot, -⟩
  · rw [heq] at h
    simp at h
  · rw [heq] at h
    have hdigits : a :: b ++ d :: w = digits 8 v.toNat := (List.cons.inj h).2
    apply isDigit_of_mem_octal (n := v.toNat)
    rw [← hdigits]
    exact List.mem_append_right _ List.mem_cons_self
  · rw [hv] at hnot
    cases hnot

theorem clear_of_digits_apart : ∀ {t : Text}, backslash ∉ t →
    (∀ u v, [u, v] <:+: t → u.isControl = true → v.isDigit = false) → Clear t
  | [], _, _ => trivial
  | u :: t, hb, hd => by
    rw [List.mem_cons, not_or] at hb
    refine ⟨?_, clear_of_digits_apart hb.2 fun a b hab => hd a b (hab.trans (List.suffix_cons u t).isInfix)⟩
    intro v hv hpre
    cases hu : u.isControl with
    | false =>
      obtain ⟨a, b, heq⟩ := escapedUnit_of_isControl hv
      rw [heq, escaped_cons, escapedUnit_of_not_isControl hu] at hpre
      exact absurd (List.cons_prefix_cons.mp hpre).1 hb.1
    | true =>
      by_contra hlt
      -- the longer form takes in a digit that follows the control
      obtain ⟨w, hw⟩ : escapedUnit u <+: escapedUnit v :=
        List.prefix_of_prefix_length_le (List.prefix_append _ _) hpre (by omega)
      cases w with
      | nil =>
        rw [← hw, List.append_nil] at hlt
        exact hlt (Nat.le_refl _)
      | cons d w =>
        have hdigit := digit_of_escapedUnit_append hu hv hw
        rw [← hw, escaped_cons, List.prefix_append_right_inj] at hpre
        obtain ⟨rest, hrest⟩ := hpre
        have hne : d ≠ backslash := by
          rintro rfl
          cases hdigit
        obtain ⟨t', rfl⟩ := eq_of_head_escaped hrest.symm hne
        rw [hd u d ⟨[], t', rfl⟩ hu] at hdigit
        cases hdigit

/-- **A readable form may stand for several texts, of which one is clear.**  So clear texts are told apart by their
forms.  A form stands for no other text exactly if its text is clear and has no control in it.  A text is clear if no
backslash stands in it and no digit right behind a control. -/
theorem escaped_shared (t : Text) :
    (∃! s, Clear s ∧ escaped s = escaped t) ∧
    ((∀ s, escaped s = escaped t → s = t) ↔ Clear t ∧ t.Readable) ∧
    (backslash ∉ t → (∀ u v, [u, v] <:+: t → u.isControl = true → v.isDigit = false) → Clear t) := by
  obtain ⟨c, hc, hform⟩ := exists_clear t.escaped (escaped_readable t)
  refine ⟨⟨c, ⟨hc, hform⟩, ?_⟩, ⟨?_, ?_⟩, clear_of_digits_apart⟩
  · rintro s ⟨hs, heq⟩
    exact hs.unique hc (heq.trans hform.symm)
  · intro h
    have hspelled : t.escaped = t := h _ (escaped_of_readable (escaped_readable t))
    rw [h c hform] at hc
    exact ⟨hc, hspelled ▸ escaped_readable t⟩
  · rintro ⟨hclear, hreadable⟩ s hs
    exact hclear.eq_of_readable hreadable hs

/-- The number of a control takes in the digit behind it. -/
theorem escape_shares_form : escaped [0x03, 0x33] = escaped [Control.escape] ∧
    ([0x03, 0x33] : Text) ≠ [Control.escape] := by
  decide

end Text

end Typeahead
