import Typeahead.Text

/-!
# Control spans

A control span is a piece of terminal text that moves the cursor, sets a colour or rings the bell,
instead of showing characters.  A `Classifier` finds the first span at or after an offset; the
promises it makes are fields of the structure, so every search over a text makes progress.
`Classifier.spans` lists all spans of a text and `Classifier.cut` the text between them.
-/

namespace Typeahead

structure Span where
  index : Nat
  value : Text
deriving Repr, DecidableEq

namespace Span

def length (s : Span) : Nat := s.value.length

def stop (s : Span) : Nat := s.index + s.length

/-- The span covers at least one unit, starts no earlier than `start`, and its value is what the
text holds there. -/
structure In (s : Span) (text : Text) (start : Nat) : Prop where
  start_le : start ≤ s.index
  value_ne : s.value ≠ []
  value_eq : (text.drop s.index).take s.value.length = s.value

theorem In.index_lt_stop {s : Span} {text : Text} {start : Nat} (h : s.In text start) : s.index < s.stop := by
  have hp := List.length_pos_iff.mpr h.value_ne
  unfold stop length
  omega

theorem In.lt_stop {s : Span} {text : Text} {start : Nat} (h : s.In text start) : start < s.stop :=
  Nat.lt_of_le_of_lt h.start_le h.index_lt_stop

theorem In.of_le {s : Span} {text : Text} {start start' : Nat} (h : s.In text start') (hle : start ≤ start') :
    s.In text start := ⟨Nat.le_trans hle h.start_le, h.value_ne, h.value_eq⟩

theorem In.stop_le {s : Span} {text : Text} {start : Nat} (h : s.In text start) :
    s.stop ≤ text.length := by
  have hl := congrArg List.length h.value_eq
  have hp := List.length_pos_iff.mpr h.value_ne
  simp only [List.length_take, List.length_drop] at hl
  unfold stop length
  omega

end Span

/-- Finds the first control span of a text that starts at or after an offset. -/
structure Classifier where
  nextMatch : Text → Nat → Option Span
  nextMatch_in : ∀ text start span, nextMatch text start = some span → span.In text start

structure Piece where
  literal : Text
  control : Text
deriving Repr, DecidableEq

/-- A text cut at its control spans; `tail` is the literal text after the last of them. -/
structure Cut where
  pieces : List Piece
  tail : Text
deriving Repr, DecidableEq

def Cut.join (c : Cut) : Text := c.pieces.flatMap (fun p => p.literal ++ p.control) ++ c.tail

namespace Classifier

def spansFrom (c : Classifier) (text : Text) (start : Nat) : List Span :=
  match _h : c.nextMatch text start with
  | none => []
  | some s => s :: c.spansFrom text s.stop
termination_by text.length - start
decreasing_by
  have hs := c.nextMatch_in _ _ _ _h
  have h1 := hs.lt_stop
  have h2 := hs.stop_le
  omega

def spans (c : Classifier) (text : Text) : List Span := c.spansFrom text 0

/-- Cuts `text`, read from the offset `start`, at the given spans. -/
def cutAt (text : Text) (start : Nat) : List Span → Cut
  | [] => ⟨[], text.drop start⟩
  | s :: rest =>
    let cut := cutAt text s.stop rest
    ⟨⟨(text.drop start).take (s.index - start), s.value⟩ :: cut.pieces, cut.tail⟩

def cut (c : Classifier) (text : Text) : Cut := cutAt text 0 (c.spans text)

end Classifier

end Typeahead
