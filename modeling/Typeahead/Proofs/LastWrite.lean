import Mathlib.Data.List.Induction
import Typeahead.Proofs.DisplayControls

/-!
# The last write wins

Text moves a cursor and puts characters where it stands.  Told without a screen, a cell shows the character
that was put there last, if it was not erased since (`Stroke.Shows`).  A screen keeps to this at every moment
(`Screen.Draws`), because the cursor never stands beyond the end of its row, so that a row has no gaps to fill.
-/

namespace Typeahead

structure Place where
  row : Nat
  column : Nat
deriving Repr, DecidableEq

inductive Stroke where
  | put (c : Cell)
  | back
  | home
  | newRow
  | erase
deriving Repr, DecidableEq

namespace Stroke

def move (p : Place) : Stroke → Place
  | put _ => { p with column := p.column + 1 }
  | back => { p with column := p.column - 1 }
  | home => { p with column := 0 }
  | newRow => ⟨p.row + 1, 0⟩
  | erase => p

def cursor (strokes : List Stroke) : Place := strokes.foldl move ⟨0, 0⟩

/-- A stroke at the cursor writes in a cell, or erases it with all that stands right of the cursor. -/
def Touches (cursor cell : Place) : Stroke → Prop
  | put _ => cursor = cell
  | erase => cursor.row = cell.row ∧ cursor.column ≤ cell.column
  | _ => False

/-- The character was put in the cell, and no later stroke touched the cell. -/
def Shows (strokes : List Stroke) (cell : Place) (c : Cell) : Prop :=
  ∃ before after, strokes = before ++ put c :: after ∧ cursor before = cell ∧
    ∀ mid s rest, after = mid ++ s :: rest → ¬ s.Touches (cursor (before ++ put c :: mid)) cell

theorem cursor_snoc (strokes : List Stroke) (s : Stroke) : cursor (strokes ++ [s]) = s.move (cursor strokes) := by
  simp [cursor]

theorem not_shows_nil (cell : Place) (c : Cell) : ¬ Shows [] cell c := by
  rintro ⟨before, after, h, -⟩
  simp at h

/-- The last stroke put the character, or it left the cell alone. -/
theorem shows_snoc {strokes : List Stroke} {s : Stroke} {cell : Place} {c : Cell} :
    Shows (strokes ++ [s]) cell c ↔
      s = put c ∧ cursor strokes = cell ∨ Shows strokes cell c ∧ ¬ s.Touches (cursor strokes) cell := by
  constructor
  · rintro ⟨before, after, h, hcell, hlater⟩
    rcases List.eq_nil_or_concat after with rfl | ⟨mid, s', rfl⟩
    · obtain ⟨rfl, hs⟩ := List.append_inj' h rfl
      exact Or.inl ⟨List.cons.inj hs |>.1, hcell⟩
    · rw [List.concat_eq_append] at h hlater
      rw [← List.cons_append, ← List.append_assoc] at h
      obtain ⟨rfl, hs⟩ := List.append_inj' h rfl
      obtain rfl : s = s' := (List.cons.inj hs).1
      refine Or.inr ⟨⟨before, mid, rfl, hcell, ?_⟩, hlater mid s [] rfl⟩
      intro first k rest hmid
      apply hlater first k (rest ++ [s])
      simp [hmid]
  · rintro (⟨rfl, hcell⟩ | ⟨⟨before, after, rfl, hcell, hlater⟩, hs⟩)
    · refine ⟨strokes, [], rfl, hcell, ?_⟩
      intro mid s rest h
      simp at h
    · refine ⟨before, after ++ [s], by simp, hcell, ?_⟩
      intro mid k rest h
      rcases List.eq_nil_or_concat rest with rfl | ⟨rest, k', rfl⟩
      · obtain ⟨rfl, hk⟩ := List.append_inj' h rfl
        obtain rfl : s = k := (List.cons.inj hk).1
        exact hs
      · rw [List.concat_eq_append, ← List.cons_append, ← List.append_assoc] at h
        obtain ⟨rfl, -⟩ := List.append_inj' h rfl
        exact hlater mid k rest rfl

/-- What is shown was put. -/
theorem Shows.mem {strokes : List Stroke} {cell : Place} {c : Cell} (h : Shows strokes cell c) :
    put c ∈ strokes := by
  obtain ⟨before, after, rfl, -⟩ := h
  simp

end Stroke

def Segment.strokes : Segment → List Stroke
  | literal t => t.codePoints.map .put
  | control t =>
    if t = [Control.backspace] then [.back]
    else if t = [Control.carriageReturn] then [.home]
    else if t = [Control.lineFeed] then [.newRow]
    else if t = [Control.escape, 0x5B, 0x4B] ∨ t = [Control.escape, 0x5B, 0x30, 0x4B] then [.erase]
    else []

def Classifier.strokes (c : Classifier) (t : Text) : List Stroke := (c.segments t).flatMap Segment.strokes

theorem Segment.put_mem_strokes {s : Segment} {cell : Cell} (h : .put cell ∈ s.strokes) :
    ∃ t, s = .literal t ∧ cell ∈ t.codePoints := by
  cases s with
  | literal t =>
    obtain ⟨c, hc, heq⟩ := List.mem_map.mp h
    obtain rfl : c = cell := Stroke.put.inj heq
    exact ⟨t, rfl, hc⟩
  | control t =>
    simp only [strokes] at h
    repeat' split at h
    all_goals simp at h

/-! ## Drawing -/

namespace Screen

def draw (s : Screen) : Stroke → Screen
  | .put c => s.put c
  | .back => s.back
  | .home => s.home
  | .newRow => s.newRow
  | .erase => s.eraseToEnd

def cell? (s : Screen) (p : Place) : Option Cell := s.rows[p.row]?.bind (·[p.column]?)

theorem playSegment_eq (s : Screen) (segment : Segment) :
    s.playSegment segment = segment.strokes.foldl draw s := by
  cases segment with
  | literal t =>
    rw [Segment.strokes, List.foldl_map]
    rfl
  | control t =>
    have herase : isErase t = true ↔ t = [Control.escape, 0x5B, 0x4B] ∨ t = [Control.escape, 0x5B, 0x30, 0x4B] := by
      simp [isErase, Control.escape]
    simp only [playSegment, control, Segment.strokes, beq_iff_eq, herase]
    repeat' split
    all_goals rfl

theorem playRow_eq (row : List Segment) (s : Screen) :
    s.playRow row = (row.flatMap Segment.strokes).foldl draw s := by
  induction row generalizing s with
  | nil => rfl
  | cons segment row ih =>
    rw [List.flatMap_cons, List.foldl_append, ← playSegment_eq]
    exact ih _

theorem ofText_eq_draw (c : Classifier) (t : Text) : ofText c t = (c.strokes t).foldl draw blank := by
  rw [ofText_eq, playRow_eq]
  rfl

theorem cell?_above (s : Screen) {p : Place} (h : p.row < s.above.length) :
    s.cell? p = s.above[p.row]?.bind (·[p.column]?) := by
  rw [cell?, rows, List.getElem?_append_left h]

theorem cell?_row (s : Screen) {p : Place} (h : p.row = s.above.length) : s.cell? p = s.row[p.column]? := by
  rw [cell?, rows, h, List.getElem?_concat_length]
  rfl

theorem cell?_below (s : Screen) {p : Place} (h : s.above.length < p.row) : s.cell? p = none := by
  have hlen : s.rows.length ≤ p.row := by
    rw [rows, List.length_append, List.length_singleton]
    exact h
  rw [cell?, List.getElem?_eq_none hlen]
  rfl

/-- Without a gap before the cursor a row gets the character at the cursor and keeps all others. -/
theorem getElem?_put_row {s : Screen} (h : s.column ≤ s.row.length) (c : Cell) (column : Nat) :
    (s.put c).row[column]? = if column = s.column then some c else s.row[column]? := by
  have hpad : s.column - s.row.length = 0 := Nat.sub_eq_zero_of_le h
  have htake : (s.row.take s.column).length = s.column := List.length_take_of_le h
  simp only [put, hpad, List.replicate_zero, List.append_nil]
  rcases Nat.lt_trichotomy column s.column with hlt | heq | hgt
  · rw [List.getElem?_append_left (by omega), List.getElem?_take_of_lt hlt, if_neg (by omega)]
  · rw [heq, List.getElem?_append_right (by omega), htake, Nat.sub_self, if_pos rfl]
    rfl
  · obtain ⟨k, rfl⟩ : ∃ k, column = s.column + 1 + k := ⟨column - (s.column + 1), by omega⟩
    rw [List.getElem?_append_right (by omega), htake, if_neg (by omega),
      show s.column + 1 + k - s.column = k + 1 by omega, List.getElem?_cons_succ, List.getElem?_drop]

/-- What is done on the row of the cursor leaves all other rows alone. -/
theorem cell?_of_same_above {s s' : Screen} (h : s'.above = s.above) {p : Place} (hp : p.row ≠ s.above.length) :
    s'.cell? p = s.cell? p := by
  rcases Nat.lt_or_gt_of_ne hp with hlt | hgt
  · rw [cell?_above s hlt, cell?_above s' (by rwa [h]), h]
  · rw [cell?_below s hgt, cell?_below s' (by rwa [h])]

theorem cell?_newRow (s : Screen) (p : Place) : s.newRow.cell? p = s.cell? p := by
  have hrows : s.newRow.rows = s.rows ++ [[]] := rfl
  unfold cell?
  rw [hrows]
  rcases Nat.lt_trichotomy p.row s.rows.length with hlt | heq | hgt
  · rw [List.getElem?_append_left hlt]
  · rw [heq, List.getElem?_concat_length, List.getElem?_eq_none (Nat.le_refl _)]
    rfl
  · have hlen : (s.rows ++ [[]]).length ≤ p.row := by
      rw [List.length_append, List.length_singleton]
      exact hgt
    rw [List.getElem?_eq_none hlen, List.getElem?_eq_none (Nat.le_of_lt hgt)]

/-- What a stroke does to the cells: the one it writes in or those it erases, and no other. -/
theorem cell?_draw {s : Screen} (h : s.column ≤ s.row.length) (k : Stroke) (p : Place) (x : Cell) :
    (s.draw k).cell? p = some x ↔
      k = .put x ∧ ⟨s.above.length, s.column⟩ = p ∨
        s.cell? p = some x ∧ ¬ k.Touches ⟨s.above.length, s.column⟩ p := by
  obtain ⟨row, column⟩ := p
  cases k with
  | back => simp [draw, back, cell?, rows, Stroke.Touches]
  | home => simp [draw, home, cell?, rows, Stroke.Touches]
  | newRow => simp [draw, cell?_newRow, Stroke.Touches]
  | put c =>
    by_cases hrow : row = s.above.length
    · rw [draw, cell?_row _ hrow, getElem?_put_row h, cell?_row s hrow]
      by_cases hc : column = s.column
      · simp [Stroke.Touches, hrow, hc, eq_comm]
      · simp [Stroke.Touches, hc, Ne.symm hc]
    · have habove : (s.put c).above = s.above := rfl
      rw [draw, cell?_of_same_above habove hrow]
      simp [Stroke.Touches, Ne.symm hrow]
  | erase =>
    by_cases hrow : row = s.above.length
    · rw [draw, cell?_row _ hrow, cell?_row s hrow]
      simp only [eraseToEnd, List.getElem?_take]
      by_cases hc : column < s.column
      · simp [Stroke.Touches, hrow, hc]
      · simp [Stroke.Touches, hrow, hc, Nat.not_lt.mp hc]
    · have habove : s.eraseToEnd.above = s.above := rfl
      rw [draw, cell?_of_same_above habove hrow]
      simp [Stroke.Touches, Ne.symm hrow]

structure Draws (s : Screen) (strokes : List Stroke) : Prop where
  cursor : Stroke.cursor strokes = ⟨s.above.length, s.column⟩
  inRow : s.column ≤ s.row.length
  cell : ∀ p x, s.cell? p = some x ↔ Stroke.Shows strokes p x

theorem blank_draws : blank.Draws [] := by
  refine ⟨rfl, Nat.le_refl _, ?_⟩
  rintro ⟨row, column⟩ x
  have hblank : blank.cell? ⟨row, column⟩ = none := by
    cases row <;> rfl
  simp [hblank, Stroke.not_shows_nil]

theorem Draws.step {s : Screen} {strokes : List Stroke} (hs : s.Draws strokes) (k : Stroke) :
    (s.draw k).Draws (strokes ++ [k]) := by
  constructor
  · rw [Stroke.cursor_snoc, hs.cursor]
    cases k with
    | newRow => simp [Stroke.move, draw, newRow]
    | _ => rfl
  · have hrow := hs.inRow
    cases k with
    | put c =>
      simp only [draw, put, List.length_append, List.length_take, List.length_cons, List.length_replicate]
      omega
    | back => exact Nat.le_trans (Nat.sub_le _ _) hrow
    | home => exact Nat.zero_le _
    | newRow => exact Nat.le_refl _
    | erase =>
      simp only [draw, eraseToEnd, List.length_take]
      omega
  · intro p x
    rw [cell?_draw hs.inRow, Stroke.shows_snoc, hs.cursor, hs.cell]

theorem foldl_draws (strokes : List Stroke) : (strokes.foldl draw blank).Draws strokes := by
  induction strokes using List.reverseRecOn with
  | nil => exact blank_draws
  | append_singleton strokes k ih =>
    rw [List.foldl_append]
    exact ih.step k

/-- A row is filled from its first column on, without gaps. -/
theorem Draws.filled {s : Screen} {strokes : List Stroke} (hs : s.Draws strokes) (row : Nat) :
    ∃ n, (∀ column, (∃ x, Stroke.Shows strokes ⟨row, column⟩ x) ↔ column < n) ∧
      ((Stroke.cursor strokes).row = row → (Stroke.cursor strokes).column ≤ n) := by
  refine ⟨(s.rows[row]?.getD []).length, ?_, ?_⟩
  · intro column
    simp only [← hs.cell, cell?]
    cases s.rows[row]? with
    | none => simp
    | some cells => simp [← Option.isSome_iff_exists]
  · intro hrow
    rw [hs.cursor] at hrow ⊢
    rw [← hrow, rows, List.getElem?_concat_length]
    exact hs.inRow

end Screen

/-- **The last write wins.**  The lines of a rendered text are rows of cells, one more than it has line feeds
among its control spans.  A cell shows the character that was put there last and not erased since, which is a
character of the text's literals.  At each moment the filled columns of a row have no gap, and the cursor is
not beyond them. -/
theorem renderScreen_shows_last_write (c : Classifier) (t : Text) :
    let strokes := c.strokes t
    let rows := (Screen.ofText c t).rows
    (renderScreen c t = Text.unlines (rows.map List.flatten) ∧
      rows.length = ((c.spans t).map Span.value).count [Control.lineFeed] + 1) ∧
    (∀ (row column : Nat) (x : Cell),
      rows[row]?.bind (·[column]?) = some x ↔ Stroke.Shows strokes ⟨row, column⟩ x) ∧
    (∀ row ∈ rows, ∀ x ∈ row, ∃ l, .literal l ∈ c.segments t ∧ x ∈ l.codePoints) ∧
    ∀ done, done <+: strokes → ∀ row, ∃ n,
      (∀ column, (∃ x, Stroke.Shows done ⟨row, column⟩ x) ↔ column < n) ∧
        ((Stroke.cursor done).row = row → (Stroke.cursor done).column ≤ n) := by
  intro strokes rows
  have hdraws : (Screen.ofText c t).Draws strokes := by
    rw [Screen.ofText_eq_draw]
    exact Screen.foldl_draws strokes
  refine ⟨⟨rfl, ?_⟩, ?_, ?_, ?_⟩
  · have habove := Screen.playRow_above_length Screen.blank (c.segments t)
    rw [← Screen.ofText_eq, Classifier.segments, Classifier.count_control_segmentsFrom] at habove
    simp only [rows, Screen.rows, List.length_append, habove]
    simp [Screen.blank, Classifier.spans]
  · intro row column x
    exact hdraws.cell ⟨row, column⟩ x
  · intro cells hcells x hx
    obtain ⟨row, hrow⟩ := List.getElem?_of_mem hcells
    obtain ⟨column, hcolumn⟩ := List.getElem?_of_mem hx
    have hshows : Stroke.Shows strokes ⟨row, column⟩ x := by
      apply (hdraws.cell ⟨row, column⟩ x).mp
      show rows[row]?.bind (·[column]?) = some x
      simp [hrow, hcolumn]
    obtain ⟨segment, hsegment, hput⟩ := List.mem_flatMap.mp hshows.mem
    obtain ⟨l, rfl, hl⟩ := Segment.put_mem_strokes hput
    exact ⟨l, hsegment, hl⟩
  · intro done _ row
    exact (Screen.foldl_draws done).filled row

def overwritten : Text :=
  [0x61, 0x62, 0x63, 0x08, 0x08, 0xD83D, 0xDE00, 0x1B, 0x5B, 0x4B, 0x0A, 0x64, 0x0D, 0x65]

theorem renderScreen_shows_last_write_overwritten :
    let strokes := Classifier.standard.strokes overwritten
    strokes = [.put [0x61], .put [0x62], .put [0x63], .back, .back, .put [0xD83D, 0xDE00], .erase, .newRow,
        .put [0x64], .home, .put [0x65]] ∧
      Stroke.Shows strokes ⟨0, 1⟩ [0xD83D, 0xDE00] ∧ (∀ x, ¬ Stroke.Shows strokes ⟨0, 2⟩ x) ∧
      strokes.take 5 <+: strokes ∧
      ∃ n, 1 ≤ n ∧ ∀ column, (∃ x, Stroke.Shows (strokes.take 5) ⟨0, column⟩ x) ↔ column < n := by
  intro strokes
  obtain ⟨-, hcells, -, hmoment⟩ := renderScreen_shows_last_write .standard overwritten
  have hstrokes : strokes = [.put [0x61], .put [0x62], .put [0x63], .back, .back, .put [0xD83D, 0xDE00], .erase,
      .newRow, .put [0x64], .home, .put [0x65]] := by decide +kernel
  have hfirst : strokes.take 5 <+: strokes := List.take_prefix 5 strokes
  have hcursor : Stroke.cursor (strokes.take 5) = ⟨0, 1⟩ := by
    rw [hstrokes]
    rfl
  obtain ⟨n, hfilled, hn⟩ := hmoment _ hfirst 0
  rw [hcursor] at hn
  refine ⟨hstrokes, (hcells 0 1 _).mp (by decide +kernel), ?_, hfirst, n, hn rfl, hfilled⟩
  intro x hx
  have hcell := (hcells 0 2 x).mpr hx
  have hnone : (Screen.ofText .standard overwritten).rows[0]?.bind (·[2]?) = none := by decide +kernel
  rw [hnone] at hcell
  cases hcell

end Typeahead
