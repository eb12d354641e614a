import Typeahead.Proofs.Display
import Typeahead.Proofs.SpanComposition

/-!
# Control spans on the display

A screen shows in its cells only what literal text put there (`Screen.Holds`), and literal text holds no single
control.  So on the display a line feed stands between two rows and nowhere else, and any other control span
begins with an escape or a C1 unit that the text shows as a character.  Such a unit may meet characters on the
display that did not follow it in the text, and form a control span with them.
-/

namespace Typeahead

namespace Control

theorem length?_ne_zero (t : Text) : length? t ≠ some 0 := length?_local.ne_zero rfl t

end Control

/-! ## Units of literals and of spans -/

namespace Segment

def literals : List Segment → Text
  | [] => []
  | literal t :: row => t ++ literals row
  | control _ :: row => literals row

theorem mem_literals {u : CodeUnit} {row : List Segment} :
    u ∈ literals row ↔ ∃ t, .literal t ∈ row ∧ u ∈ t := by
  induction row with
  | nil => simp [literals]
  | cons segment row ih => cases segment <;> simp [literals, ih]

end Segment

namespace Pattern

variable {f : Text → Option Nat}

theorem none_of_mem_literals (hpos : ∀ t, f t ≠ some 0) {u : CodeUnit} {t : Text}
    (hu : u ∈ Segment.literals ((forward f).classifier.segments t)) : ∃ rest, f (u :: rest) = none := by
  induction t using head_induction hpos with
  | nil =>
    rw [Classifier.segments_nil] at hu
    cases hu
  | unmatched v t h ih =>
    obtain ⟨l, after, hseg, hseg'⟩ := segments_of_none h
    rw [hseg'] at hu
    rcases List.mem_cons.mp hu with rfl | hu
    · exact ⟨t, h⟩
    · exact ih (hseg ▸ hu)
  | matched v t n h ih =>
    rw [segments_of_some h] at hu
    exact ih hu

theorem match_of_mem_spans (hpos : ∀ t, f t ≠ some 0) {t : Text} {s : Span}
    (hs : s ∈ (forward f).classifier.spans t) :
    ∃ u rest n, u ∈ t ∧ f (u :: rest) = some (n + 1) ∧ s.value = (u :: rest).take (n + 1) := by
  induction t using head_induction hpos generalizing s with
  | nil =>
    rw [Classifier.spans_nil] at hs
    cases hs
  | unmatched v t h ih =>
    rw [spans_of_none h] at hs
    obtain ⟨s', hs', rfl⟩ := List.mem_map.mp hs
    obtain ⟨u, rest, n, hu, hmatch⟩ := ih hs'
    exact ⟨u, rest, n, List.mem_cons_of_mem v hu, hmatch⟩
  | matched v t n h ih =>
    rw [spans_of_some h] at hs
    rcases List.mem_cons.mp hs with rfl | hs
    · exact ⟨v, t, n, List.mem_cons_self .., h, rfl⟩
    · obtain ⟨s', hs', rfl⟩ := List.mem_map.mp hs
      obtain ⟨u, rest, m, hu, hmatch⟩ := ih hs'
      exact ⟨u, rest, m, List.mem_of_mem_drop hu, hmatch⟩

end Pattern

namespace Classifier

theorem isSingle_of_mem_literals {t : Text} {u : CodeUnit} (hu : u ∈ Segment.literals (standard.segments t)) :
    Control.isSingle u = false := by
  obtain ⟨rest, hnone⟩ := Pattern.none_of_mem_literals Control.length?_ne_zero hu
  refine Bool.eq_false_iff.mpr fun hsingle => ?_
  rw [Control.length?_of_not_opens (Control.opens_of_isSingle hsingle), if_pos hsingle] at hnone
  cases hnone

/-- A control span is a single control, or it begins with a unit that opens a longer form. -/
theorem standard_span_cases {t : Text} {s : Span} (hs : s ∈ standard.spans t) :
    ∃ u ∈ t, Control.isSingle u = true ∧ s.value = [u] ∨ Control.opens u = true ∧ s.value.head? = some u := by
  obtain ⟨u, rest, n, hu, hlen, hvalue⟩ := Pattern.match_of_mem_spans Control.length?_ne_zero hs
  refine ⟨u, hu, ?_⟩
  cases hopens : Control.opens u with
  | true => exact Or.inr ⟨rfl, by rw [hvalue]; rfl⟩
  | false =>
    rw [Control.length?_of_not_opens hopens] at hlen
    split at hlen
    · rename_i hsingle
      obtain rfl : n = 0 := by simpa using hlen.symm
      exact Or.inl ⟨hsingle, hvalue⟩
    · cases hlen

/-- Where nothing opens a longer form, the control spans are the single controls. -/
theorem standard_spans_of_not_opens : ∀ {t : Text}, (∀ u ∈ t, Control.opens u = false) →
    (standard.spans t).map Span.value = (t.filter Control.isSingle).map fun u => [u]
  | [], _ => by
    rw [standard.spans_nil]
    rfl
  | u :: t, h => by
    obtain ⟨hu, ht⟩ := List.forall_mem_cons.mp h
    have hlen := Control.length?_of_not_opens hu t
    have ih := standard_spans_of_not_opens ht
    by_cases hs : Control.isSingle u = true
    · rw [if_pos hs] at hlen
      have hspans : standard.spans (u :: t) = ⟨0, [u]⟩ :: (standard.spans t).map (·.shift 1) :=
        Pattern.spans_of_some hlen
      rw [hspans, List.filter_cons_of_pos hs, List.map_cons, List.map_cons, ← ih, List.map_map]
      rfl
    · rw [if_neg hs] at hlen
      have hspans : standard.spans (u :: t) = (standard.spans t).map (·.shift 1) := Pattern.spans_of_none hlen
      rw [hspans, List.filter_cons_of_neg hs, ← ih, List.map_map]
      rfl

end Classifier

/-! ## What the cells hold -/

namespace Text

theorem mem_of_mem_codePoints {u : CodeUnit} {c t : Text} (hc : c ∈ t.codePoints) (hu : u ∈ c) : u ∈ t := by
  rw [← codePoints_flatten t]
  exact List.mem_flatten_of_mem hc hu

theorem unlines_cons_cons (p p' : Text) (rest : List Text) :
    unlines (p :: p' :: rest) = p ++ [Control.lineFeed] ++ unlines (p' :: rest) := rfl

theorem mem_unlines {u : CodeUnit} : ∀ {pieces : List Text}, u ∈ unlines pieces →
    u = Control.lineFeed ∨ ∃ p ∈ pieces, u ∈ p
  | [], hu => by cases hu
  | [p], hu => Or.inr ⟨p, List.mem_cons_self .., hu⟩
  | p :: p' :: rest, hu => by
    rw [unlines_cons_cons, List.mem_append, List.mem_append, List.mem_singleton] at hu
    rcases hu with (hu | hu) | hu
    · exact Or.inr ⟨p, List.mem_cons_self .., hu⟩
    · exact Or.inl hu
    · rcases mem_unlines hu with hu | ⟨q, hq, hu⟩
      · exact Or.inl hu
      · exact Or.inr ⟨q, List.mem_cons_of_mem _ hq, hu⟩

theorem count_unlines : ∀ {pieces : List Text}, (∀ p ∈ pieces, Control.lineFeed ∉ p) →
    (unlines pieces).count Control.lineFeed = pieces.length - 1
  | [], _ => rfl
  | [p], h => List.count_eq_zero_of_not_mem (h p (List.mem_cons_self ..))
  | p :: p' :: rest, h => by
    obtain ⟨hp, hrest⟩ := List.forall_mem_cons.mp h
    have ih := count_unlines hrest
    rw [unlines_cons_cons, List.count_append, List.count_append, List.count_eq_zero_of_not_mem hp,
      List.count_singleton_self, ih]
    simp only [List.length_cons]
    omega

end Text

namespace Screen

def Holds (Q : Cell → Prop) (s : Screen) : Prop := ∀ row ∈ s.rows, ∀ cell ∈ row, Q cell

variable {Q : Cell → Prop} {s : Screen}

theorem blank_holds : blank.Holds Q := by simp [Holds, blank, rows]

theorem Holds.of_row (h : s.Holds Q) {row : List Cell} {column : Nat} (hrow : ∀ cell ∈ row, Q cell) :
    Holds Q ⟨s.above, row, column⟩ := by
  intro r hr
  rcases List.mem_append.mp hr with hr | hr
  · exact h r (List.mem_append_left _ hr)
  · rw [List.mem_singleton.mp hr]
    exact hrow

theorem Holds.row (h : s.Holds Q) : ∀ cell ∈ s.row, Q cell := h s.row (by simp [rows])

theorem Holds.put (h : s.Holds Q) (hspace : Q [0x20]) {c : Cell} (hc : Q c) : (s.put c).Holds Q := by
  refine h.of_row fun cell hcell => ?_
  have hpadded : ∀ cell ∈ s.row ++ List.replicate (s.column - s.row.length) [0x20], Q cell := by
    intro cell hcell
    rcases List.mem_append.mp hcell with hcell | hcell
    · exact h.row cell hcell
    · rw [List.eq_of_mem_replicate hcell]
      exact hspace
  rcases List.mem_append.mp hcell with hcell | hcell
  · exact hpadded cell (List.mem_of_mem_take hcell)
  · rcases List.mem_cons.mp hcell with rfl | hcell
    · exact hc
    · exact hpadded cell (List.mem_of_mem_drop hcell)

theorem Holds.putText (h : s.Holds Q) (hspace : Q [0x20]) {t : Text} (ht : ∀ c ∈ t.codePoints, Q c) :
    (s.putText t).Holds Q := by
  unfold Screen.putText
  generalize t.codePoints = cells at ht ⊢
  induction cells generalizing s with
  | nil => exact h
  | cons c cells ih =>
    obtain ⟨hc, hcells⟩ := List.forall_mem_cons.mp ht
    exact ih (h.put hspace hc) hcells

theorem Holds.control (h : s.Holds Q) (t : Text) : (s.control t).Holds Q := by
  unfold Screen.control
  split
  · exact h.of_row h.row
  split
  · exact h.of_row h.row
  split
  · intro row hrow
    rcases List.mem_append.mp hrow with hrow | hrow
    · exact h row hrow
    · rw [List.mem_singleton.mp hrow]
      exact List.forall_mem_nil _
  split
  · exact h.of_row fun cell hcell => h.row cell (List.mem_of_mem_take hcell)
  · exact h

theorem Holds.playRow (h : s.Holds Q) (hspace : Q [0x20]) {row : List Segment}
    (hrow : ∀ t, .literal t ∈ row → ∀ c ∈ t.codePoints, Q c) : (s.playRow row).Holds Q := by
  induction row generalizing s with
  | nil => exact h
  | cons segment row ih =>
    have hrest (t : Text) (ht : .literal t ∈ row) := hrow t (List.mem_cons_of_mem _ ht)
    cases segment with
    | literal t => exact ih (h.putText hspace (hrow t (List.mem_cons_self ..))) hrest
    | control t => exact ih (h.control t) hrest

theorem putText_above (s : Screen) (t : Text) : (s.putText t).above = s.above := by
  unfold putText
  induction t.codePoints generalizing s with
  | nil => rfl
  | cons c cells ih => exact ih (s.put c)

theorem control_above_length (s : Screen) (t : Text) :
    (s.control t).above.length = s.above.length + if t = [Control.lineFeed] then 1 else 0 := by
  unfold control
  by_cases ht : t = [Control.lineFeed]
  · subst ht
    exact List.length_append
  · simp only [beq_iff_eq, ht, if_false]
    repeat' split
    all_goals rfl

/-- A row is finished at each line feed. -/
theorem playRow_above_length (s : Screen) (row : List Segment) :
    (s.playRow row).above.length = s.above.length + row.count (.control [Control.lineFeed]) := by
  induction row generalizing s with
  | nil => rfl
  | cons segment row ih =>
    rw [playRow, List.foldl_cons, ← playRow, ih, List.count_cons]
    cases segment with
    | literal t => simp [playSegment, putText_above]
    | control t =>
      simp only [playSegment, control_above_length, beq_iff_eq, Segment.control.injEq]
      omega

theorem ofText_holds {Q : Cell → Prop} (c : Classifier) (t : Text) (hspace : Q [0x20])
    (hcell : ∀ cell : Cell, (∀ u ∈ cell, u ∈ Segment.literals (c.segments t)) → Q cell) :
    (ofText c t).Holds Q := by
  rw [ofText_eq]
  refine blank_holds.playRow hspace fun l hl cell hc => hcell cell fun u hu => ?_
  exact Segment.mem_literals.mpr ⟨l, hl, Text.mem_of_mem_codePoints hc hu⟩

end Screen

namespace Classifier

theorem count_control_segmentsFrom (text v : Text) : ∀ (start : Nat) (spans : List Span),
    (segmentsFrom text start spans).count (.control v) = (spans.map Span.value).count v
  | _, [] => rfl
  | _, s :: rest => by
    simp [segmentsFrom, List.count_cons, count_control_segmentsFrom text v s.stop rest]

end Classifier

/-! ## The display -/

open Classifier (standard)

theorem mem_renderScreen {t : Text} {u : CodeUnit} (hu : u ∈ renderScreen standard t) :
    u = Control.lineFeed ∨ u = 0x20 ∨ u ∈ Segment.literals (standard.segments t) := by
  have hcells : (Screen.ofText standard t).Holds fun cell =>
      ∀ u ∈ cell, u = 0x20 ∨ u ∈ Segment.literals (standard.segments t) :=
    Screen.ofText_holds standard t (by simp) fun cell h u hu => Or.inr (h u hu)
  rcases Text.mem_unlines hu with hu | ⟨line, hline, hu⟩
  · exact Or.inl hu
  · obtain ⟨row, hrow, rfl⟩ := List.mem_map.mp hline
    obtain ⟨cell, hcell, hu⟩ := List.mem_flatten.mp hu
    exact Or.inr (hcells row hrow cell hcell u hu)

def lineFeeds (t : Text) : Nat := ((standard.spans t).map Span.value).count [Control.lineFeed]

theorem count_lineFeed_renderScreen (t : Text) :
    (renderScreen standard t).count Control.lineFeed = lineFeeds t := by
  have hcells : (Screen.ofText standard t).Holds fun cell => Control.lineFeed ∉ cell := by
    refine Screen.ofText_holds standard t (by decide) fun cell h hmem => ?_
    exact absurd (Classifier.isSingle_of_mem_literals (h _ hmem)) (by decide)
  have hlines : ∀ line ∈ (Screen.ofText standard t).rows.map List.flatten, Control.lineFeed ∉ line := by
    intro line hline hmem
    obtain ⟨row, hrow, rfl⟩ := List.mem_map.mp hline
    obtain ⟨cell, hcell, hmem⟩ := List.mem_flatten.mp hmem
    exact hcells row hrow cell hcell hmem
  have habove : (Screen.ofText standard t).above.length = lineFeeds t := by
    rw [Screen.ofText_eq, Screen.playRow_above_length, Classifier.segments, Classifier.count_control_segmentsFrom]
    exact Nat.zero_add _
  rw [renderScreen, Screen.display, Text.count_unlines hlines, List.length_map, Screen.rows, List.length_append,
    habove]
  rfl

/-- The only single controls on the display are the line feeds between its rows. -/
theorem filter_isSingle_renderScreen (t : Text) :
    (renderScreen standard t).filter Control.isSingle = List.replicate (lineFeeds t) Control.lineFeed := by
  have hfilter : (renderScreen standard t).filter Control.isSingle =
      (renderScreen standard t).filter (· == Control.lineFeed) := by
    refine List.filter_congr fun u hu => ?_
    rcases mem_renderScreen hu with rfl | rfl | hu
    · rfl
    · rfl
    · have hsingle := Classifier.isSingle_of_mem_literals hu
      have hne : u ≠ Control.lineFeed := by
        rintro rfl
        cases hsingle
      rw [hsingle, beq_eq_false_iff_ne.mpr hne]
  rw [hfilter, List.filter_beq, count_lineFeed_renderScreen]

/-- **Control spans on the display.**  Each is a line feed, or it begins with an escape or a C1 unit that opens
longer forms and that the text shows as a character.  A text that shows no such unit has on its display its own
line feeds and no other control span. -/
theorem display_control_spans (t : Text) :
    (∀ s ∈ standard.spans (renderScreen standard t), s.value = [Control.lineFeed] ∨
      ∃ u ∈ Segment.literals (standard.segments t), Control.opens u = true ∧ s.value.head? = some u) ∧
    ((∀ u ∈ Segment.literals (standard.segments t), Control.opens u = false) →
      (standard.spans (renderScreen standard t)).map Span.value =
        List.replicate (lineFeeds t) [Control.lineFeed]) := by
  constructor
  · intro s hs
    obtain ⟨u, hu, ⟨hsingle, hvalue⟩ | ⟨hopens, hhead⟩⟩ := Classifier.standard_span_cases hs
    · rcases mem_renderScreen hu with rfl | rfl | hu
      · exact Or.inl hvalue
      · cases hsingle
      · rw [Classifier.isSingle_of_mem_literals hu] at hsingle
        cases hsingle
    · rcases mem_renderScreen hu with rfl | rfl | hu
      · cases hopens
      · cases hopens
      · exact Or.inr ⟨u, hu, hopens, hhead⟩
  · intro hshown
    have hdisplay : ∀ u ∈ renderScreen standard t, Control.opens u = false := by
      intro u hu
      rcases mem_renderScreen hu with rfl | rfl | hu
      · rfl
      · rfl
      · exact hshown u hu
    rw [Classifier.standard_spans_of_not_opens hdisplay, filter_isSingle_renderScreen, List.map_replicate]

def colouredRows : Text := [0x61, 0x1B, 0x5B, 0x6D, 0x08, 0x5B, 0x0D, 0x0A, 0x64, 0x0D, 0x1B, 0x5B, 0x4B]

theorem display_control_spans_colouredRows :
    (∀ u ∈ Segment.literals (standard.segments colouredRows), Control.opens u = false) ∧
      (standard.spans (renderScreen standard colouredRows)).map Span.value = [[0x0A]] := by
  have hall : (Segment.literals (standard.segments colouredRows)).all (!Control.opens ·) = true := by
    decide +kernel
  have hshown : ∀ u ∈ Segment.literals (standard.segments colouredRows), Control.opens u = false := by
    intro u hu
    simpa using List.all_eq_true.mp hall u hu
  have hfeeds : lineFeeds colouredRows = 1 := by decide +kernel
  refine ⟨hshown, ?_⟩
  rw [(display_control_spans colouredRows).2 hshown, hfeeds]
  rfl

/-- An escape that opens nothing, and a colour between it and what would make it erase the screen: the colour is
dropped, and the display erases the screen. -/
theorem display_assembles_control :
    standard.spans (renderScreen standard [0x1B, 0x1B, 0x5B, 0x6D, 0x5B, 0x32, 0x4A]) =
      [⟨0, [0x1B, 0x5B, 0x32, 0x4A]⟩] := by
  decide +kernel

end Typeahead
