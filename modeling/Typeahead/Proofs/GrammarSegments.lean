import Typeahead.Control.Grammar
import Typeahead.Proofs.Segments

/-!
# Segments from the head of a text

A pattern that looks only ahead (`Pattern.forward`) finds the same spans wherever a text stands, so the
segments of a text are told from its head: a unit at which nothing matches joins the first literal
(`segments_of_none`), and a match is a control span with the segments of the rest after it
(`segments_of_some`).  The control grammar is such a pattern.
-/

namespace Typeahead

namespace Span

theorem shift_shift (s : Span) (m n : Nat) : (s.shift m).shift n = s.shift (m + n) := by
  simp [shift, Nat.add_assoc]

end Span

namespace Pattern

/-- A pattern for which nothing counts that stands before the place. -/
def forward (f : Text → Option Nat) : Pattern := fun _ after => f after

section
variable (f : Text → Option Nat)

theorem search_forward (before before' after : Text) (index n : Nat) :
    (forward f).search before after (index + n) =
      ((forward f).search before' after index).map (·.shift n) := by
  induction after generalizing before before' index with
  | nil => rfl
  | cons u rest ih =>
    simp only [search, forward]
    split
    · rfl
    · rw [show index + n + 1 = index + 1 + n by omega]
      exact ih _ _ _

theorem nextMatch_forward (text : Text) (start : Nat) : (forward f).classifier.nextMatch text start =
    ((forward f).classifier.nextMatch (text.drop start) 0).map (·.shift start) := by
  have h := search_forward f (text.take start).reverse [] (text.drop start) 0 start
  simpa [classifier, nextMatch] using h

end

end Pattern

namespace Classifier

theorem spansFrom_of_none {c : Classifier} {text : Text} {start : Nat} (h : c.nextMatch text start = none) :
    c.spansFrom text start = [] := by
  rw [spansFrom]
  split
  · rfl
  · rename_i s hs
    rw [h] at hs
    cases hs

theorem spansFrom_of_some {c : Classifier} {text : Text} {start : Nat} {s : Span}
    (h : c.nextMatch text start = some s) : c.spansFrom text start = s :: c.spansFrom text s.stop := by
  rw [spansFrom]
  split
  · rename_i hs
    rw [h] at hs
    cases hs
  · rename_i s' hs
    obtain rfl : s = s' := Option.some.inj (h.symm.trans hs)
    rfl

theorem spans_nil (c : Classifier) : c.spans [] = [] := by
  refine spansFrom_of_none ?_
  cases h : c.nextMatch [] 0 with
  | none => rfl
  | some s =>
    have hs := c.nextMatch_in _ _ _ h
    exact absurd hs.stop_le (Nat.not_le_of_lt hs.lt_stop)

theorem segments_nil (c : Classifier) : c.segments [] = [.literal []] := segments_of_spans_nil c.spans_nil

end Classifier

namespace Pattern

section
variable {f : Text → Option Nat}

theorem spansFrom_forward (text : Text) (start : Nat) : (forward f).classifier.spansFrom text start =
    ((forward f).classifier.spans (text.drop start)).map (·.shift start) := by
  have hnext := nextMatch_forward f text start
  cases h : (forward f).classifier.nextMatch (text.drop start) 0 with
  | none =>
    rw [h] at hnext
    rw [Classifier.spans, Classifier.spansFrom_of_none h, Classifier.spansFrom_of_none hnext]
    rfl
  | some s =>
    rw [h] at hnext
    -- behind the match both sides go on, with less of the text left
    have hs := (forward f).classifier.nextMatch_in _ _ _ h
    have hpos := hs.lt_stop
    have hle : s.stop ≤ text.length - start := by simpa using hs.stop_le
    rw [Classifier.spans, Classifier.spansFrom_of_some h, Classifier.spansFrom_of_some hnext, List.map_cons,
      Span.shift_stop, spansFrom_forward text (s.stop + start), spansFrom_forward (text.drop start) s.stop,
      List.drop_drop, List.map_map, Nat.add_comm start]
    congr 2
    funext s'
    exact (Span.shift_shift s' s.stop start).symm
termination_by text.length - start
decreasing_by
  · omega
  · rw [List.length_drop]
    omega

theorem spans_of_none {u : CodeUnit} {t : Text} (h : f (u :: t) = none) :
    (forward f).classifier.spans (u :: t) = ((forward f).classifier.spans t).map (·.shift 1) := by
  have hnext : (forward f).classifier.nextMatch (u :: t) 0 = (forward f).classifier.nextMatch (u :: t) 1 := by
    simp [classifier, nextMatch, search, forward, h]
  have hone := spansFrom_forward (f := f) (u :: t) 1
  rw [List.drop_succ_cons, List.drop_zero] at hone
  rw [← hone, Classifier.spans]
  cases hm : (forward f).classifier.nextMatch (u :: t) 1 with
  | none => rw [Classifier.spansFrom_of_none (hnext.trans hm), Classifier.spansFrom_of_none hm]
  | some s => rw [Classifier.spansFrom_of_some (hnext.trans hm), Classifier.spansFrom_of_some hm]

theorem spans_of_some {u : CodeUnit} {t : Text} {n : Nat} (h : f (u :: t) = some (n + 1)) :
    let span := (u :: t).take (n + 1)
    (forward f).classifier.spans (u :: t) = ⟨0, span⟩ ::
      ((forward f).classifier.spans ((u :: t).drop span.length)).map (·.shift span.length) := by
  intro span
  have hnext : (forward f).classifier.nextMatch (u :: t) 0 = some ⟨0, span⟩ := by
    simp [classifier, nextMatch, search, forward, h, span]
  rw [Classifier.spans, Classifier.spansFrom_of_some hnext]
  rw [show Span.stop ⟨0, span⟩ = span.length from Nat.zero_add _, spansFrom_forward]

/-- A text is taken apart from its head, where nothing matches or a match begins. -/
@[elab_as_elim]
theorem head_induction (hpos : ∀ t, f t ≠ some 0) {P : Text → Prop} (nil : P [])
    (unmatched : ∀ u t, f (u :: t) = none → P t → P (u :: t))
    (matched : ∀ u t n, f (u :: t) = some (n + 1) →
      P ((u :: t).drop ((u :: t).take (n + 1)).length) → P (u :: t)) : ∀ t, P t
  | [] => nil
  | u :: t => by
    cases h : f (u :: t) with
    | none => exact unmatched u t h (head_induction hpos nil unmatched matched t)
    | some n =>
      obtain ⟨n, rfl⟩ : ∃ m, n = m + 1 := Nat.exists_eq_succ_of_ne_zero fun h0 => hpos _ (h0 ▸ h)
      exact matched u t n h (head_induction hpos nil unmatched matched _)
termination_by t => t.length
decreasing_by
  · simp
  · simp only [List.length_drop, List.length_take, List.length_cons]
    omega

/-! ## Segments -/

theorem segments_of_none {u : CodeUnit} {t : Text} (h : f (u :: t) = none) :
    ∃ l after, (forward f).classifier.segments t = .literal l :: after ∧
      (forward f).classifier.segments (u :: t) = .literal (u :: l) :: after := by
  rw [Classifier.segments, Classifier.segments, spans_of_none h]
  cases (forward f).classifier.spans t with
  | nil => exact ⟨t, [], rfl, rfl⟩
  | cons s rest =>
    -- all spans stand one unit further in, so only the first literal is another
    have hrest := Classifier.segmentsFrom_shift [u] t s.stop rest
    rw [List.length_singleton, List.singleton_append] at hrest
    have hindex : (s.shift 1).index - 0 = s.index + 1 := rfl
    refine ⟨t.take s.index, .control s.value :: Classifier.segmentsFrom t s.stop rest, rfl, ?_⟩
    simp [Classifier.segmentsFrom, Span.shift_stop, hrest, hindex]

theorem segments_of_some {u : CodeUnit} {t : Text} {n : Nat} (h : f (u :: t) = some (n + 1)) :
    let span := (u :: t).take (n + 1)
    (forward f).classifier.segments (u :: t) = .literal [] :: .control span ::
      (forward f).classifier.segments ((u :: t).drop span.length) := by
  intro span
  have hdrop : (u :: t).drop span.length = (u :: t).drop (n + 1) := by
    rw [List.drop_eq_drop_iff, List.length_take]
    omega
  have hrest := Classifier.segmentsFrom_shift span ((u :: t).drop span.length) 0
    ((forward f).classifier.spans ((u :: t).drop span.length))
  rw [hdrop, List.take_append_drop, Nat.zero_add] at hrest
  rw [Classifier.segments, spans_of_some h, hdrop, Classifier.segmentsFrom,
    show Span.stop ⟨0, span⟩ = span.length from Nat.zero_add _, hrest]
  rfl

end

end Pattern

/-! ## The control grammar -/

namespace Control

/-- Units that begin a form of more than one unit. -/
def opens (u : CodeUnit) : Bool := u == escape || u == 0x9D || u == 0x9B || opensStringC1 u

theorem length?_of_not_opens {u : CodeUnit} (h : opens u = false) (t : Text) :
    length? (u :: t) = if isSingle u then some 1 else none := by
  simp only [opens, Bool.or_eq_false_iff, beq_eq_false_iff_ne] at h
  obtain ⟨⟨⟨he, hcommand⟩, hsequence⟩, hstring⟩ := h
  have he : u ≠ 0x1B := he
  simp [length?, palette?, systemCommand?, controlString?, controlSequence?, escapeSequence?, he, hcommand,
    hsequence, hstring, single?, unit?]

theorem opens_of_isSingle {u : CodeUnit} (h : isSingle u = true) : opens u = false := by
  simp only [isSingle, Bool.or_eq_true, beq_iff_eq] at h
  rcases h with (((rfl | rfl) | rfl) | rfl) | rfl <;> rfl

/-- Only escape and the C1 controls begin a form of more than one unit. -/
theorem opens_cases {u : CodeUnit} (h : opens u = true) : u = escape ∨ isC1 u = true := by
  simp only [opens, opensStringC1, Bool.or_eq_true, beq_iff_eq] at h
  rcases h with ((rfl | rfl) | rfl) | ((rfl | rfl) | rfl) | rfl
  · exact Or.inl rfl
  all_goals exact Or.inr (by decide)

theorem length?_of_not_opening {u : CodeUnit} (he : u ≠ escape) (hc : isC1 u = false) (t : Text) :
    length? (u :: t) = if isSingle u then some 1 else none := by
  refine length?_of_not_opens (Bool.eq_false_iff.mpr fun hopens => ?_) t
  rcases opens_cases hopens with h | h
  · exact he h
  · rw [hc] at h
    cases h

end Control

namespace Classifier

theorem standard_segments_of_none {u : CodeUnit} {t : Text} (h : Control.length? (u :: t) = none) :
    ∃ l after, standard.segments t = .literal l :: after ∧
      standard.segments (u :: t) = .literal (u :: l) :: after :=
  Pattern.segments_of_none h

theorem standard_segments_of_single {u : CodeUnit} (h : Control.isSingle u = true) (t : Text) :
    standard.segments (u :: t) = .literal [] :: .control [u] :: standard.segments t := by
  have hlen := Control.length?_of_not_opens (Control.opens_of_isSingle h) t
  rw [if_pos h] at hlen
  exact Pattern.segments_of_some hlen

end Classifier

end Typeahead
