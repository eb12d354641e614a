import Typeahead.Proofs.Display
import Typeahead.Proofs.SpanComposition

/-!
# Lines show apart from one another

A line feed that is a control span parts a text in two.  The spans before and after it are those of the parts
alone, and a screen begins a new row at it, where what came before does not count (`Screen.playRow_below`).  So
what the text shows is what the parts show, one above the other.
-/

namespace Typeahead

namespace Screen

def below (s : Screen) (above : List (List Cell)) : Screen := { s with above := above ++ s.above }

theorem playRow_append (s : Screen) (row row' : List Segment) :
    s.playRow (row ++ row') = (s.playRow row).playRow row' := List.foldl_append

theorem playRow_cons (s : Screen) (segment : Segment) (row : List Segment) :
    s.playRow (segment :: row) = (s.playSegment segment).playRow row := rfl

section
variable (above : List (List Cell))

theorem rows_below (s : Screen) : (s.below above).rows = above ++ s.rows :=
  List.append_assoc above s.above [s.row]

theorem putText_below (s : Screen) (t : Text) : (s.below above).putText t = (s.putText t).below above := by
  unfold putText
  induction t.codePoints generalizing s with
  | nil => rfl
  | cons c cells ih => exact ih (s.put c)

theorem control_below (s : Screen) (t : Text) : (s.below above).control t = (s.control t).below above := by
  unfold control
  repeat' split
  · rfl
  · rfl
  · simp [newRow, below]
  · rfl
  · rfl

/-- Rows above the screen stay where they are. -/
theorem playRow_below (row : List Segment) (s : Screen) :
    (s.below above).playRow row = (s.playRow row).below above := by
  induction row generalizing s with
  | nil => rfl
  | cons segment row ih =>
    have hsegment : (s.below above).playSegment segment = (s.playSegment segment).below above := by
      cases segment with
      | literal t => exact putText_below above s t
      | control t => exact control_below above s t
    rw [playRow_cons, hsegment]
    exact ih _

end

theorem newRow_eq (s : Screen) : s.newRow = blank.below s.rows := by
  simp [newRow, below, blank, rows]

theorem display_eq_append {s s' s'' : Screen} (h : s.rows = s'.rows ++ s''.rows) :
    s.display = s'.display ++ [Control.lineFeed] ++ s''.display := by
  have hne (s : Screen) : s.rows.map List.flatten ≠ [] := by simp [rows]
  rw [display, h, List.map_append, Text.unlines, Text.join_append _ (hne s') (hne s''), ← List.append_assoc]
  rfl

end Screen

namespace Classifier

/-- Around a line feed that is a control span the segments are those of the two parts. -/
theorem standard_segments_lineFeed {a b : Text}
    (h : ⟨a.length, [Control.lineFeed]⟩ ∈ standard.spans (a ++ Control.lineFeed :: b)) :
    standard.segments (a ++ Control.lineFeed :: b) =
      standard.segments a ++ .control [Control.lineFeed] :: standard.segments b := by
  have hcross : ∀ s ∈ standard.spans (a ++ Control.lineFeed :: b),
      ¬ (s.index < a.length ∧ a.length < s.stop) := by
    rintro s hs ⟨hbegin, hend⟩
    have hchain := standard.spansFrom_chain (a ++ Control.lineFeed :: b) 0
    rcases hchain.apart s hs _ h with rfl | hbefore | hafter
    · exact Nat.lt_irrefl _ hbegin
    · exact Nat.not_lt.mpr hbefore hend
    · have hstop : a.length + 1 ≤ s.index := hafter
      omega
  obtain ⟨before, l, l', after, ha, hb, hab⟩ := segments_append (standard_spans_append hcross)
  rw [standard_segments_of_single (by decide)] at hb
  obtain ⟨hl, rfl⟩ := List.cons.inj hb
  obtain rfl : [] = l' := Segment.literal.inj hl
  rw [hab, ha, List.append_nil, List.append_assoc]
  rfl

end Classifier

open Classifier (standard)

/-- **Lines show apart from one another.**  A text with a line feed that is a control span shows what stands
before it, and below it what stands after it. -/
theorem renderScreen_lineFeed {a b : Text}
    (h : ⟨a.length, [Control.lineFeed]⟩ ∈ standard.spans (a ++ [Control.lineFeed] ++ b)) :
    renderScreen standard (a ++ [Control.lineFeed] ++ b) =
      renderScreen standard a ++ [Control.lineFeed] ++ renderScreen standard b := by
  rw [List.append_assoc, List.singleton_append] at h ⊢
  have hfeed : (Screen.ofText standard a).playSegment (.control [Control.lineFeed]) =
      Screen.blank.below (Screen.ofText standard a).rows := Screen.newRow_eq _
  have hplay : Screen.ofText standard (a ++ Control.lineFeed :: b) =
      (Screen.ofText standard b).below (Screen.ofText standard a).rows := by
    rw [Screen.ofText_eq, Classifier.standard_segments_lineFeed h, Screen.playRow_append, ← Screen.ofText_eq,
      Screen.playRow_cons, hfeed, Screen.playRow_below, ← Screen.ofText_eq]
  apply Screen.display_eq_append
  rw [hplay, Screen.rows_below]

def cutColour : Text := [0x61, 0x08, 0x62, 0x63, 0x1B, 0x5B, 0x33]

theorem renderScreen_lineFeed_cutColour :
    ⟨cutColour.length, [Control.lineFeed]⟩ ∈ standard.spans (cutColour ++ [Control.lineFeed] ++ [0x31, 0x6D]) ∧
      renderScreen standard (cutColour ++ [Control.lineFeed] ++ [0x31, 0x6D]) =
        [0x62, 0x63, 0x1B, 0x5B, 0x33, 0x0A, 0x31, 0x6D] := by
  have hspan : ⟨cutColour.length, [Control.lineFeed]⟩ ∈
      standard.spans (cutColour ++ [Control.lineFeed] ++ [0x31, 0x6D]) := by decide +kernel
  refine ⟨hspan, ?_⟩
  rw [renderScreen_lineFeed hspan]
  decide +kernel

end Typeahead
