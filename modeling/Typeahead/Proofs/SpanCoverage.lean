import Typeahead.Proofs.DisplayControls
import Typeahead.Proofs.SpanSearch

/-!
# What control spans cover

A backspace, line feed, carriage return, delete or bell never stands outside the control spans of a text: where a
search stops the grammar matches nothing, and it matches each of these five wherever one stands.  Any longer span
begins with an escape or a C1 control (`Classifier.standard_spans_cover`).
-/

namespace Typeahead

namespace Control

def singles : List CodeUnit := [0x08, 0x0A, 0x0D, 0x7F, 0x07]

theorem isSingle_iff (u : CodeUnit) : isSingle u = true ↔ u ∈ singles := by
  simp [isSingle, singles, backspace, lineFeed, carriageReturn, delete, bell, or_assoc]

theorem isC1_iff (u : CodeUnit) : isC1 u = true ↔ 0x80 ≤ u ∧ u ≤ 0x9F := by
  simp [isC1]

end Control

namespace Classifier

open Control (singles)

theorem notMem_singles_of_mem_literals {t l : Text} (hl : .literal l ∈ standard.segments t) :
    ∀ u ∈ l, u ∉ singles := by
  intro u hu hsingle
  have hnot := isSingle_of_mem_literals (Segment.mem_literals.mpr ⟨l, hl, hu⟩)
  rw [(Control.isSingle_iff u).mpr hsingle] at hnot
  cases hnot

theorem exists_span_of_isSingle {t : Text} {i : Nat} {u : CodeUnit} (hi : t[i]? = some u)
    (hu : Control.isSingle u = true) : ∃ s ∈ standard.spans t, s.index ≤ i ∧ i < s.stop := by
  by_contra hout
  simp only [not_exists, not_and] at hout
  obtain ⟨hlt, rfl⟩ := List.getElem?_eq_some_iff.mp hi
  have hvoid : Control.pattern.Void t i :=
    Control.pattern.void_outside_spans t 0 i (Nat.zero_le i) fun s hs hin => hout s hs hin.1 hin.2
  -- the grammar matches the control where it stands
  have hmatch : Control.pattern.matchAt t i = some [t[i]] := by
    have hdrop : t.drop i = t[i] :: t.drop (i + 1) := List.drop_eq_getElem_cons hlt
    have hlen : Control.length? (t[i] :: t.drop (i + 1)) = some 1 := by
      rw [Control.length?_of_not_opens (Control.opens_of_isSingle hu), if_pos hu]
    simp only [Pattern.matchAt, Control.pattern, hdrop, hlen, Option.map_some, List.take_succ_cons, List.take_zero]
  exact absurd (hvoid _ hmatch) (List.cons_ne_nil _ _)

/-- **The control spans of a text cover its single controls.**  Each lies inside a span, so none stands in the
literal text between the spans.  Each span is one of the five alone or begins with an escape or a C1 control, and
a text with neither has no span. -/
theorem standard_spans_cover (t : Text) :
    (∀ i u, t[i]? = some u → u ∈ singles → ∃ s ∈ standard.spans t, s.index ≤ i ∧ i < s.stop) ∧
    ((∀ p ∈ (standard.cut t).pieces, ∀ u ∈ p.literal, u ∉ singles) ∧ ∀ u ∈ (standard.cut t).tail, u ∉ singles) ∧
    (∀ s ∈ standard.spans t, (∃ u ∈ singles, s.value = [u]) ∨
      ∃ u, s.value.head? = some u ∧ (u = 0x1B ∨ 0x80 ≤ u ∧ u ≤ 0x9F)) ∧
    ((∀ u ∈ t, u ∉ singles ∧ u ≠ 0x1B ∧ ¬(0x80 ≤ u ∧ u ≤ 0x9F)) → standard.spans t = []) := by
  have hsegments : (standard.cut t).segments = standard.segments t := Cut.segments_cutAt t 0 _
  refine ⟨?_, ⟨?_, ?_⟩, ?_, ?_⟩
  · intro i u hi hu
    exact exists_span_of_isSingle hi ((Control.isSingle_iff u).mpr hu)
  · intro p hp
    apply notMem_singles_of_mem_literals (t := t)
    rw [← hsegments]
    exact List.mem_append_left _ (List.mem_flatMap.mpr ⟨p, hp, List.mem_cons_self⟩)
  · apply notMem_singles_of_mem_literals (t := t)
    rw [← hsegments]
    exact List.mem_append_right _ List.mem_cons_self
  · intro s hs
    obtain ⟨u, -, ⟨hsingle, hvalue⟩ | ⟨hopens, hhead⟩⟩ := standard_span_cases hs
    · exact Or.inl ⟨u, (Control.isSingle_iff u).mp hsingle, hvalue⟩
    · refine Or.inr ⟨u, hhead, ?_⟩
      rcases Control.opens_cases hopens with h | h
      · exact Or.inl h
      · exact Or.inr ((Control.isC1_iff u).mp h)
  · intro hnone
    apply List.eq_nil_iff_forall_not_mem.mpr
    intro s hs
    obtain ⟨u, hu, ⟨hsingle, -⟩ | ⟨hopens, -⟩⟩ := standard_span_cases hs
    all_goals obtain ⟨hnot, hescape, hC1⟩ := hnone u hu
    · exact hnot ((Control.isSingle_iff u).mp hsingle)
    · rcases Control.opens_cases hopens with h | h
      · exact hescape h
      · exact hC1 ((Control.isC1_iff u).mp h)

end Classifier

end Typeahead
