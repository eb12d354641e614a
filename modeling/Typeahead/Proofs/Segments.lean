import Typeahead.Control.Span

/-!
# Segments

A chunk of terminal text read as a row of segments, literal text and control spans in turn.  The
segments spell the chunk (`segments_text`), and where no span lies across the place at which two
texts meet, only the two literals beside that place run together (`segments_append`).
-/

namespace Typeahead

inductive Segment where
  | literal (t : Text)
  | control (t : Text)
deriving Repr, DecidableEq

namespace Segment

def text : Segment → Text
  | literal t => t
  | control t => t

def spell (row : List Segment) : Text := row.flatMap text

@[simp] theorem spell_nil : spell [] = [] := rfl

@[simp] theorem spell_cons (s : Segment) (row : List Segment) : spell (s :: row) = s.text ++ spell row := rfl

@[simp] theorem spell_append (row row' : List Segment) : spell (row ++ row') = spell row ++ spell row' :=
  List.flatMap_append

def controls : List Segment → Text
  | [] => []
  | literal _ :: row => controls row
  | control t :: row => t ++ controls row

end Segment

/-! ## Spans that follow one another -/

namespace Span

def shift (s : Span) (n : Nat) : Span := ⟨s.index + n, s.value⟩

@[simp] theorem shift_value (s : Span) (n : Nat) : (s.shift n).value = s.value := rfl

theorem shift_stop (s : Span) (n : Nat) : (s.shift n).stop = s.stop + n := by
  simp only [stop, shift, length]
  omega

/-- Spans of a text, each behind the one before it, the first no earlier than `start`. -/
def Chain (text : Text) : (start : Nat) → List Span → Prop
  | _, [] => True
  | start, s :: rest => s.In text start ∧ Chain text s.stop rest

theorem Chain.le_index {text : Text} : ∀ {start : Nat} {spans : List Span}, Chain text start spans →
    ∀ s ∈ spans, start ≤ s.index
  | _, s :: rest, h, s', hs' => by
    obtain ⟨hs, hrest⟩ := h
    rcases List.mem_cons.mp hs' with rfl | hs'
    · exact hs.start_le
    · have hstop := hs.lt_stop
      have ih := Chain.le_index hrest s' hs'
      omega

/-- Of two spans of a chain one ends before the other begins. -/
theorem Chain.apart {text : Text} : ∀ {start : Nat} {spans : List Span}, Chain text start spans →
    ∀ s ∈ spans, ∀ s' ∈ spans, s = s' ∨ s.stop ≤ s'.index ∨ s'.stop ≤ s.index
  | _, head :: rest, h, s, hs, s', hs' => by
    obtain ⟨-, hrest⟩ := h
    rcases List.mem_cons.mp hs with rfl | hmem
    · rcases List.mem_cons.mp hs' with rfl | hmem'
      · exact Or.inl rfl
      · exact Or.inr (Or.inl (Chain.le_index hrest s' hmem'))
    · rcases List.mem_cons.mp hs' with rfl | hmem'
      · exact Or.inr (Or.inr (Chain.le_index hrest s hmem))
      · exact Chain.apart hrest s hmem s' hmem'

theorem In.append_drop {s : Span} {text : Text} {start : Nat} (h : s.In text start) :
    s.value ++ text.drop s.stop = text.drop s.index := by
  have hv := h.value_eq
  calc s.value ++ text.drop s.stop
      = (text.drop s.index).take s.value.length ++ (text.drop s.index).drop s.value.length := by
        rw [hv, List.drop_drop]; rfl
    _ = text.drop s.index := List.take_append_drop _ _

/-- A text from `start` on is what stands before a span, the span, and what follows it. -/
theorem In.take_append {s : Span} {text : Text} {start : Nat} (h : s.In text start) :
    (text.drop start).take (s.index - start) ++ (s.value ++ text.drop s.stop) = text.drop start := by
  have hle := h.start_le
  have hdrop : (text.drop start).drop (s.index - start) = text.drop s.index := by
    rw [List.drop_drop]; congr 1; omega
  rw [h.append_drop, ← hdrop, List.take_append_drop]

end Span

namespace Classifier

theorem spansFrom_chain (c : Classifier) (text : Text) (start : Nat) :
    Span.Chain text start (c.spansFrom text start) := by
  fun_induction c.spansFrom text start with
  | case1 start h => exact trivial
  | case2 start s h ih => exact ⟨c.nextMatch_in _ _ _ h, ih⟩

/-! ## The segments of a text -/

def segmentsFrom (text : Text) (start : Nat) : List Span → List Segment
  | [] => [.literal (text.drop start)]
  | s :: rest =>
    .literal ((text.drop start).take (s.index - start)) :: .control s.value :: segmentsFrom text s.stop rest

def segments (c : Classifier) (text : Text) : List Segment := segmentsFrom text 0 (c.spans text)

theorem segmentsFrom_text {text : Text} : ∀ {start : Nat} {spans : List Span}, Span.Chain text start spans →
    Segment.spell (segmentsFrom text start spans) = text.drop start
  | start, [], _ => by simp [segmentsFrom, Segment.text]
  | start, s :: rest, ⟨hs, hrest⟩ => by
    simp only [segmentsFrom, Segment.spell_cons, Segment.text, segmentsFrom_text hrest]
    exact hs.take_append

theorem segments_text (c : Classifier) (text : Text) : Segment.spell (c.segments text) = text :=
  segmentsFrom_text (c.spansFrom_chain text 0)

theorem controls_segmentsFrom (text : Text) : ∀ (start : Nat) (spans : List Span),
    Segment.controls (segmentsFrom text start spans) = spans.flatMap Span.value
  | _, [] => rfl
  | _, s :: rest => by
    simp only [segmentsFrom, Segment.controls, List.flatMap_cons, controls_segmentsFrom text s.stop rest]

theorem controls_segments (c : Classifier) (text : Text) :
    Segment.controls (c.segments text) = (c.spans text).flatMap Span.value :=
  controls_segmentsFrom text 0 _

theorem segments_of_spans_nil {c : Classifier} {text : Text} (h : c.spans text = []) :
    c.segments text = [.literal text] := by
  simp [segments, h, segmentsFrom]

/-! ## Two texts put together -/

theorem segmentsFrom_shift (a b : Text) : ∀ (start : Nat) (spans : List Span),
    segmentsFrom (a ++ b) (start + a.length) (spans.map (·.shift a.length)) = segmentsFrom b start spans
  | start, [] => by simp [segmentsFrom, List.drop_append]
  | start, s :: rest => by
    have hi : (s.shift a.length).index - (start + a.length) = s.index - start := by
      simp only [Span.shift]; omega
    simp only [List.map_cons, segmentsFrom, hi, Span.shift_stop, segmentsFrom_shift a b s.stop rest, Span.shift_value]
    congr 3
    simp [List.drop_append]

theorem segmentsFrom_append {a : Text} (b : Text) (right : List Span) : ∀ {start : Nat} {left : List Span},
    start ≤ a.length → Span.Chain a start left →
      ∃ before l l' after, segmentsFrom a start left = before ++ [.literal l] ∧
        segmentsFrom b 0 right = .literal l' :: after ∧
        segmentsFrom (a ++ b) start (left ++ right.map (·.shift a.length)) = before ++ .literal (l ++ l') :: after
  | start, [], hstart, _ => by
    cases right with
    | nil => exact ⟨[], a.drop start, b, [], rfl, rfl, by simp [segmentsFrom, List.drop_append_of_le_length hstart]⟩
    | cons s rest =>
      refine ⟨[], a.drop start, b.take s.index, .control s.value :: segmentsFrom b s.stop rest, rfl, rfl, ?_⟩
      have hlen : (s.shift a.length).index - start = (a.drop start).length + s.index := by
        simp only [Span.shift, List.length_drop]; omega
      simp only [List.nil_append, List.map_cons, segmentsFrom, hlen, Span.shift_value, Span.shift_stop,
        segmentsFrom_shift, List.drop_append_of_le_length hstart, List.take_length_add_append]
  | start, s :: left, hstart, ⟨hs, hleft⟩ => by
    obtain ⟨before, l, l', after, ha, hb, hab⟩ := segmentsFrom_append b right hs.stop_le hleft
    refine ⟨.literal ((a.drop start).take (s.index - start)) :: .control s.value :: before, l, l', after, ?_, hb, ?_⟩
    · simp [segmentsFrom, ha]
    · -- the literal before a span of the first text ends inside that text
      have hi : s.index - start ≤ (a.drop start).length := by
        have := hs.stop_le
        simp only [Span.stop, List.length_drop] at *; omega
      simp [segmentsFrom, hab, List.drop_append_of_le_length hstart, List.take_append_of_le_length hi]

/-- If the spans of two texts put together are those of the first and then those of the second, only
the literals at the joint differ. -/
theorem segments_append {c : Classifier} {a b : Text}
    (h : c.spans (a ++ b) = c.spans a ++ (c.spans b).map (·.shift a.length)) :
    ∃ before l l' after, c.segments a = before ++ [.literal l] ∧ c.segments b = .literal l' :: after ∧
      c.segments (a ++ b) = before ++ .literal (l ++ l') :: after := by
  simp only [segments, h]
  exact segmentsFrom_append b _ (Nat.zero_le _) (c.spansFrom_chain a 0)

end Classifier

end Typeahead
