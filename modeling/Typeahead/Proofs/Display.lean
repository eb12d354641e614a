import Typeahead.Proofs.CodePoints
import Typeahead.Proofs.GrammarSegments
import Typeahead.Proofs.Reconciliation
import Typeahead.Proofs.Typing
import Typeahead.Screen

/-!
# The screen, segment by segment

A screen plays the segments of a text in turn (`Screen.ofText_eq`).  A key is a segment of its own or joins
the literal it stands before, so keys at the head of a text are played one by one (`Screen.play_keys`).  A
screen on which only keys were played is one row of single units (`Screen.Spells`).
-/

namespace Typeahead

namespace Engine

theorem length?_of_isEchoed {u : CodeUnit} (hu : isEchoed u = true) (hb : u ≠ Control.backspace)
    (t : Text) : Control.length? (u :: t) = none := by
  have hnat := (isEchoed_iff u).mp hu
  have hb : u.toNat ≠ 0x08 := fun h => hb (UInt16.toNat_inj.mp h)
  have he : u ≠ Control.escape := by
    rintro rfl
    exact absurd hnat (by decide)
  have hc : Control.isC1 u = false := by
    simp [Control.isC1, UInt16.le_iff_toNat_le]
    omega
  have hs : Control.isSingle u = false := by
    simp only [Control.isSingle, Bool.or_eq_false_iff, beq_eq_false_iff_ne, ne_eq, ← UInt16.toNat_inj]
    simp [Control.backspace, Control.lineFeed, Control.carriageReturn, Control.delete, Control.bell]
    omega
  rw [Control.length?_of_not_opening he hc, hs]
  rfl

theorem not_high_of_isEchoed {u : CodeUnit} (hu : isEchoed u = true) : u.isHighSurrogate = false := by
  have hnat := (isEchoed_iff u).mp hu
  simp [CodeUnit.isHighSurrogate, UInt16.le_iff_toNat_le]
  omega

end Engine

namespace Screen

def playSegment (s : Screen) : Segment → Screen
  | .literal t => s.putText t
  | .control t => s.control t

def playRow (s : Screen) (row : List Segment) : Screen := row.foldl playSegment s

theorem play_putText (tail : Text) : ∀ (pieces : List Piece) (s : Screen),
    (s.play pieces).putText tail = s.playRow (Cut.segments ⟨pieces, tail⟩)
  | [], _ => rfl
  | p :: rest, s => by
    rw [Cut.segments_cons]
    exact play_putText tail rest _

theorem ofText_eq (c : Classifier) (t : Text) : ofText c t = blank.playRow (c.segments t) := by
  rw [ofText, play_putText, Classifier.segments, ← Cut.segments_cutAt]
  rfl

/-! ## Keys -/

def key (s : Screen) (u : CodeUnit) : Screen := if u = Control.backspace then s.back else s.put [u]

theorem play_key {u : CodeUnit} (hu : Engine.isEchoed u = true) (s : Screen) (t : Text) :
    s.playRow (Classifier.standard.segments (u :: t)) = (s.key u).playRow (Classifier.standard.segments t) := by
  by_cases hb : u = Control.backspace
  · subst hb
    rw [Classifier.standard_segments_of_single (by decide)]
    rfl
  · obtain ⟨l, after, hseg, hseg'⟩ := Classifier.standard_segments_of_none (Engine.length?_of_isEchoed hu hb t)
    rw [hseg, hseg', key, if_neg hb]
    simp only [playRow, List.foldl_cons, playSegment, putText, Text.codePoints_cons (Engine.not_high_of_isEchoed hu)]

theorem play_keys : ∀ {keys : Text}, (∀ u ∈ keys, Engine.isEchoed u = true) → ∀ (s : Screen) (t : Text),
    s.playRow (Classifier.standard.segments (keys ++ t)) =
      (keys.foldl key s).playRow (Classifier.standard.segments t)
  | [], _, _, _ => rfl
  | u :: keys, h, s, t => by
    obtain ⟨hu, hkeys⟩ := List.forall_mem_cons.mp h
    rw [List.cons_append, play_key hu, play_keys hkeys]
    rfl

theorem ofText_keys {keys : Text} (h : ∀ u ∈ keys, Engine.isEchoed u = true) :
    ofText .standard keys = keys.foldl key blank := by
  have hplay := play_keys h blank []
  rwa [List.append_nil, ← ofText_eq, Classifier.segments_nil] at hplay

theorem play_letter {u : CodeUnit} (hu : Engine.isEchoed u = true) (hb : u ≠ Control.backspace) (s : Screen) :
    s.playRow (Classifier.standard.segments [u]) = s.put [u] := by
  rw [play_key hu, Classifier.segments_nil, key, if_neg hb]
  rfl

theorem foldl_backspaces (s : Screen) (n : Nat) :
    (List.replicate n Control.backspace).foldl key s = { s with column := s.column - n } := by
  induction n generalizing s with
  | zero => rfl
  | succ n ih =>
    rw [List.replicate_succ, List.foldl_cons, ih]
    simp [key, back, Nat.sub_sub, Nat.add_comm]

/-! ## One row of single units -/

structure Spells (s : Screen) (t : Text) : Prop where
  above : s.above = []
  row : s.row = t.map fun u => [u]
  column : s.column ≤ t.length

theorem blank_spells : blank.Spells [] := ⟨rfl, rfl, Nat.le_refl _⟩

theorem Spells.back {s : Screen} {t : Text} (h : s.Spells t) : s.back.Spells t :=
  ⟨h.above, h.row, Nat.le_trans (Nat.sub_le _ _) h.column⟩

theorem Spells.put {s : Screen} {t : Text} (h : s.Spells t) (u : CodeUnit) :
    (s.put [u]).Spells (t.take s.column ++ u :: t.drop (s.column + 1)) := by
  have hpad : s.column - t.length = 0 := Nat.sub_eq_zero_of_le h.column
  refine ⟨h.above, ?_, ?_⟩
  · simp [Screen.put, hpad, h.row, List.map_take, List.map_drop]
  · have := h.column
    simp only [Screen.put, List.length_append, List.length_take, List.length_cons, List.length_drop]
    omega

theorem Spells.keys : ∀ (keys : Text) {s : Screen} {t : Text}, s.Spells t →
    ∃ t', (keys.foldl key s).Spells t'
  | [], _, t, h => ⟨t, h⟩
  | u :: keys, s, _, h => by
    rw [List.foldl_cons, key]
    split
    · exact Spells.keys keys h.back
    · exact Spells.keys keys (h.put u)

theorem Spells.display {s : Screen} {t : Text} (h : s.Spells t) : s.display = t := by
  simp [Screen.display, rows, h.above, h.row, Text.unlines, Text.join, List.flatten_eq_flatMap, List.flatMap_map]

/-- A character put left of the cursor shows, unless it is there already. -/
theorem Spells.display_put_ne {s : Screen} {t : Text} (h : s.Spells t) {column : Nat} (hc : column < s.column)
    {u : CodeUnit} (hu : t[column]? ≠ some u) :
    ({ s with column }.put [u]).display ≠ (s.put [u]).display := by
  have hleft : Spells { s with column } t :=
    ⟨h.above, h.row, Nat.le_trans (Nat.le_of_lt hc) h.column⟩
  have hlen := h.column
  intro heq
  rw [(hleft.put u).display, (h.put u).display] at heq
  -- the first screen shows the character in this cell, the second what was there before
  have hcell := congrArg (·[column]?) heq
  have htake : (t.take column).length = column := by rw [List.length_take]; omega
  have hright : column < (t.take s.column).length := by rw [List.length_take]; omega
  simp only [List.getElem?_append_left hright, List.getElem?_take_of_lt hc] at hcell
  rw [List.getElem?_append_right (Nat.le_of_eq htake), htake, Nat.sub_self] at hcell
  exact hu hcell.symm

end Screen

end Typeahead
