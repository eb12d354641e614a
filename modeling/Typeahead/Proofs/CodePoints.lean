import Typeahead.Text

/-!
# Characters and their units

A text is its characters one after the other.  A text is well formed if no surrogate in it stands alone, and
then it can be cut and joined at any unit that is no surrogate.
-/

namespace Typeahead

def CodeUnit.isSurrogate (u : CodeUnit) : Bool := u.isHighSurrogate || u.isLowSurrogate

theorem CodeUnit.isSurrogate_eq_false_iff (u : CodeUnit) :
    u.isSurrogate = false ↔ u.toNat < 0xD800 ∨ 0xE000 ≤ u.toNat := by
  simp only [isSurrogate, isHighSurrogate, isLowSurrogate, UInt16.le_iff_toNat_le, UInt16.lt_iff_toNat_lt,
    Bool.or_eq_false_iff, Bool.and_eq_false_iff, decide_eq_false_iff_not, UInt16.reduceToNat]
  omega

theorem CodeUnit.isSurrogate_of_lt {u : CodeUnit} (h : u.toNat < 0x80) : u.isSurrogate = false :=
  u.isSurrogate_eq_false_iff.mpr (Or.inl (by omega))

theorem CodeUnit.isHighSurrogate_iff (u : CodeUnit) :
    u.isHighSurrogate = true ↔ 0xD800 ≤ u.toNat ∧ u.toNat < 0xDC00 := by
  simp [isHighSurrogate, UInt16.le_iff_toNat_le, UInt16.lt_iff_toNat_lt]

theorem CodeUnit.isLowSurrogate_iff (u : CodeUnit) :
    u.isLowSurrogate = true ↔ 0xDC00 ≤ u.toNat ∧ u.toNat < 0xE000 := by
  simp [isLowSurrogate, UInt16.le_iff_toNat_le, UInt16.lt_iff_toNat_lt]

theorem CodeUnit.isHighSurrogate_of_not_isSurrogate {u : CodeUnit} (h : u.isSurrogate = false) :
    u.isHighSurrogate = false := (Bool.or_eq_false_iff.mp h).1

namespace Text

theorem codePoints_cons {u : CodeUnit} (hu : u.isHighSurrogate = false) (t : Text) :
    codePoints (u :: t) = [u] :: codePoints t := by
  cases t with
  | nil => rfl
  | cons v t => simp [codePoints, hu]

theorem codePoints_pair {u v : CodeUnit} (hu : u.isHighSurrogate = true) (hv : v.isLowSurrogate = true)
    (t : Text) : codePoints (u :: v :: t) = [u, v] :: codePoints t := by
  simp [codePoints, hu, hv]

theorem codePoints_flatten (t : Text) : t.codePoints.flatten = t := by
  fun_induction codePoints t with
  | case1 => rfl
  | case2 u => rfl
  | case3 u v rest _ ih => rw [List.flatten_cons, ih]; rfl
  | case4 u v rest _ ih => rw [List.flatten_cons, ih]; rfl

/-! ## Well-formed text -/

/-- No surrogate stands alone. -/
inductive WellFormed : Text → Prop
  | nil : WellFormed []
  | unit {u : CodeUnit} {t : Text} (hu : u.isSurrogate = false) : WellFormed t → WellFormed (u :: t)
  | pair {u v : CodeUnit} {t : Text} (hu : u.isHighSurrogate = true) (hv : v.isLowSurrogate = true) :
      WellFormed t → WellFormed (u :: v :: t)

theorem wellFormed_cons_cons (u v : CodeUnit) (t : Text) : WellFormed (u :: v :: t) ↔
    (u.isSurrogate = false ∧ WellFormed (v :: t)) ∨
      (u.isHighSurrogate = true ∧ v.isLowSurrogate = true ∧ WellFormed t) := by
  constructor
  · intro h
    cases h with
    | unit hu ht => exact .inl ⟨hu, ht⟩
    | pair hu hv ht => exact .inr ⟨hu, hv, ht⟩
  · rintro (⟨hu, ht⟩ | ⟨hu, hv, ht⟩)
    · exact .unit hu ht
    · exact .pair hu hv ht

theorem wellFormed_singleton (u : CodeUnit) : WellFormed [u] ↔ u.isSurrogate = false := by
  constructor
  · intro h
    cases h with
    | unit hu _ => exact hu
  · intro hu
    exact .unit hu .nil

instance WellFormed.decidable : (t : Text) → Decidable (WellFormed t)
  | [] => .isTrue .nil
  | [u] => decidable_of_iff _ (wellFormed_singleton u).symm
  | u :: v :: t =>
    have : Decidable (WellFormed (v :: t)) := WellFormed.decidable (v :: t)
    have : Decidable (WellFormed t) := WellFormed.decidable t
    decidable_of_iff _ (wellFormed_cons_cons u v t).symm

theorem WellFormed.append {a b : Text} (ha : WellFormed a) (hb : WellFormed b) : WellFormed (a ++ b) := by
  induction ha with
  | nil => exact hb
  | unit hu _ ih => exact .unit hu ih
  | pair hu hv _ ih => exact .pair hu hv ih

theorem WellFormed.flatten {ts : List Text} (h : ∀ t ∈ ts, WellFormed t) : WellFormed ts.flatten := by
  induction ts with
  | nil => exact .nil
  | cons t ts ih =>
    obtain ⟨ht, hts⟩ := List.forall_mem_cons.mp h
    exact ht.append (ih hts)

theorem wellFormed_of_units {t : Text} (h : ∀ u ∈ t, u.isSurrogate = false) : WellFormed t := by
  induction t with
  | nil => exact .nil
  | cons u t ih =>
    obtain ⟨hu, ht⟩ := List.forall_mem_cons.mp h
    exact .unit hu (ih ht)

/-- A unit that is no surrogate parts a text into two well-formed ones. -/
theorem WellFormed.split {t : Text} (h : WellFormed t) : ∀ {a b : Text} {u : CodeUnit},
    t = a ++ u :: b → u.isSurrogate = false → WellFormed a ∧ WellFormed b := by
  induction h with
  | nil => intro a b u ht; cases a <;> cases ht
  | @unit w t hw hrest ih =>
    intro a b u ht hu
    cases a with
    | nil => cases ht; exact ⟨.nil, hrest⟩
    | cons x a =>
      simp only [List.cons_append, List.cons.injEq] at ht
      obtain ⟨rfl, ht⟩ := ht
      obtain ⟨ha, hb⟩ := ih ht hu
      exact ⟨.unit hw ha, hb⟩
  | @pair w v t hw hv hrest ih =>
    intro a b u ht hu
    match a with
    | [] =>
      obtain ⟨rfl, -⟩ := List.cons.inj ht
      rw [CodeUnit.isHighSurrogate_of_not_isSurrogate hu] at hw; cases hw
    | [x] =>
      obtain ⟨-, ht⟩ := List.cons.inj ht
      obtain ⟨rfl, -⟩ := List.cons.inj ht
      rw [(Bool.or_eq_false_iff.mp hu).2] at hv; cases hv
    | x :: y :: a =>
      simp only [List.cons_append, List.cons.injEq] at ht
      obtain ⟨rfl, rfl, ht⟩ := ht
      obtain ⟨ha, hb⟩ := ih ht hu
      exact ⟨.pair hw hv ha, hb⟩

/-- Units may be spelled out, as long as surrogates stay and no others come in. -/
theorem WellFormed.flatMap {t : Text} (h : WellFormed t) {f : CodeUnit → Text}
    (hs : ∀ u, u.isSurrogate = true → f u = [u])
    (hf : ∀ u, u.isSurrogate = false → WellFormed (f u)) : WellFormed (t.flatMap f) := by
  induction h with
  | nil => exact .nil
  | unit hu _ ih => exact (hf _ hu).append ih
  | @pair u v t hu hv _ ih =>
    have hsu : u.isSurrogate = true := by simp [CodeUnit.isSurrogate, hu]
    have hsv : v.isSurrogate = true := by simp [CodeUnit.isSurrogate, hv]
    rw [List.flatMap_cons, List.flatMap_cons, hs u hsu, hs v hsv]
    exact .pair hu hv ih

theorem WellFormed.cut {t : Text} (h : WellFormed t) {i : Nat} {u : CodeUnit} (hi : t[i]? = some u)
    (hu : u.isSurrogate = false) : WellFormed (t.take i) ∧ WellFormed (t.drop (i + 1)) := by
  obtain ⟨hlt, rfl⟩ := List.getElem?_eq_some_iff.mp hi
  have ht : t = t.take i ++ t[i] :: t.drop (i + 1) := by simp
  exact h.split ht hu

theorem WellFormed.of_mem_codePoints {t : Text} (h : WellFormed t) : ∀ {c : Text}, c ∈ codePoints t →
    WellFormed c := by
  induction h with
  | nil => intro c hc; cases hc
  | @unit u t hu _ ih =>
    intro c hc
    rw [codePoints_cons (CodeUnit.isHighSurrogate_of_not_isSurrogate hu)] at hc
    rcases List.mem_cons.mp hc with rfl | hc
    · exact .unit hu .nil
    · exact ih hc
  | @pair u v t hu hv _ ih =>
    intro c hc
    rw [codePoints_pair hu hv] at hc
    rcases List.mem_cons.mp hc with rfl | hc
    · exact .pair hu hv .nil
    · exact ih hc

def IsAscii (t : Text) : Prop := ∀ u ∈ t, u.toNat < 0x80

instance (t : Text) : Decidable t.IsAscii := List.decidableBAll (fun u : CodeUnit => u.toNat < 0x80) t

theorem IsAscii.append {a b : Text} (ha : a.IsAscii) (hb : b.IsAscii) : (a ++ b).IsAscii :=
  List.forall_mem_append.mpr ⟨ha, hb⟩

theorem IsAscii.of_subset {a b : Text} (hb : b.IsAscii) (h : a ⊆ b) : a.IsAscii := fun u hu => hb u (h hu)

theorem isAscii_replicate (n : Nat) {u : CodeUnit} (hu : u.toNat < 0x80) : IsAscii (List.replicate n u) := by
  intro v hv
  rwa [List.eq_of_mem_replicate hv]

theorem isAscii_newline (n : Nat) : IsAscii (0x0A :: List.replicate n 0x20) :=
  List.forall_mem_cons.mpr ⟨by decide, isAscii_replicate n (by decide)⟩

theorem IsAscii.wellFormed {t : Text} (h : t.IsAscii) : WellFormed t :=
  wellFormed_of_units fun u hu => CodeUnit.isSurrogate_of_lt (h u hu)

/-! ## Lines -/

theorem join_cons_cons (sep p q : Text) (ps : List Text) :
    join sep (p :: q :: ps) = p ++ (sep ++ join sep (q :: ps)) := List.append_assoc p sep _

theorem join_append (sep : Text) : ∀ {ps qs : List Text}, ps ≠ [] → qs ≠ [] →
    join sep (ps ++ qs) = join sep ps ++ (sep ++ join sep qs)
  | [], _, h, _ => absurd rfl h
  | [p], q :: qs, _, _ => join_cons_cons sep p q qs
  | p :: p' :: ps, qs, _, h => by
    have ih := join_append sep (List.cons_ne_nil p' ps) h
    rw [List.cons_append] at ih
    rw [List.cons_append, List.cons_append, join_cons_cons, ih, join_cons_cons]
    simp only [List.append_assoc]

theorem splitOn_ne_nil (sep : CodeUnit) (t : Text) : splitOn sep t ≠ [] := by
  cases t with
  | nil => exact List.cons_ne_nil _ _
  | cons u t =>
    unfold splitOn
    split
    · exact List.cons_ne_nil _ _
    · split <;> exact List.cons_ne_nil _ _

/-- A separator ends the piece before it. -/
theorem splitOn_append_cons {sep : CodeUnit} {piece : Text} (h : sep ∉ piece) (t : Text) :
    splitOn sep (piece ++ sep :: t) = piece :: splitOn sep t := by
  induction piece with
  | nil => simp [splitOn]
  | cons u piece ih =>
    rw [List.mem_cons, not_or] at h
    have hu : (u == sep) = false := beq_eq_false_iff_ne.mpr (Ne.symm h.1)
    simp [splitOn, hu, ih h.2]

theorem splitOn_of_notMem {sep : CodeUnit} {t : Text} (h : sep ∉ t) : splitOn sep t = [t] := by
  induction t with
  | nil => rfl
  | cons u t ih =>
    rw [List.mem_cons, not_or] at h
    have hu : (u == sep) = false := beq_eq_false_iff_ne.mpr (Ne.symm h.1)
    simp [splitOn, hu, ih h.2]

/-- Pieces without separators in them are told apart when they are joined. -/
theorem lines_unlines : ∀ {pieces : List Text}, pieces ≠ [] → (∀ p ∈ pieces, 0x0A ∉ p) →
    lines (unlines pieces) = pieces
  | [], h, _ => absurd rfl h
  | [p], _, h => splitOn_of_notMem (h p (List.mem_cons_self ..))
  | p :: q :: pieces, _, h => by
    obtain ⟨hp, hrest⟩ := List.forall_mem_cons.mp h
    have ih := lines_unlines (List.cons_ne_nil q pieces) hrest
    rw [unlines, join_cons_cons, List.singleton_append, lines, splitOn_append_cons hp, ← lines, ← unlines, ih]

/-- Lines that are ended one by one stand at the head of all lines. -/
theorem lines_flatMap_append {pieces : List Text} (h : ∀ p ∈ pieces, 0x0A ∉ p) (t : Text) :
    lines (pieces.flatMap (· ++ [0x0A]) ++ t) = pieces ++ lines t := by
  induction pieces with
  | nil => rfl
  | cons p pieces ih =>
    obtain ⟨hp, hrest⟩ := List.forall_mem_cons.mp h
    rw [List.flatMap_cons, List.append_assoc, List.append_assoc, List.singleton_append, lines,
      splitOn_append_cons hp, ← lines, ih hrest]
    rfl

/-- The pieces between the separators, with the separators between them, are the text. -/
theorem join_splitOn (sep : CodeUnit) (t : Text) : join [sep] (splitOn sep t) = t := by
  induction t with
  | nil => rfl
  | cons u t ih =>
    unfold splitOn
    split
    · rename_i hu
      cases hs : splitOn sep t with
      | nil => exact absurd hs (splitOn_ne_nil sep t)
      | cons piece pieces => rw [join_cons_cons, ← hs, ih, eq_of_beq hu]; rfl
    · cases hs : splitOn sep t with
      | nil => exact absurd hs (splitOn_ne_nil sep t)
      | cons piece pieces =>
        rw [hs] at ih
        cases pieces with
        | nil => exact congrArg (u :: ·) ih
        | cons q pieces =>
          rw [join_cons_cons] at ih ⊢
          exact congrArg (u :: ·) ih

theorem WellFormed.join {sep : Text} (hsep : WellFormed sep) : ∀ {pieces : List Text},
    (∀ p ∈ pieces, WellFormed p) → WellFormed (join sep pieces)
  | [], _ => .nil
  | [p], h => h p (by simp)
  | p :: q :: pieces, h => by
    obtain ⟨hp, hrest⟩ := List.forall_mem_cons.mp h
    rw [join_cons_cons]
    exact hp.append (hsep.append (WellFormed.join hsep hrest))

theorem WellFormed.of_join {sep : CodeUnit} (hsep : sep.isSurrogate = false) : ∀ {pieces : List Text},
    WellFormed (Text.join [sep] pieces) → ∀ p ∈ pieces, WellFormed p
  | [], _, _, hp => absurd hp List.not_mem_nil
  | [p], h, _, hp => by rwa [List.mem_singleton.mp hp]
  | p :: q :: pieces, h, r, hr => by
    obtain ⟨hp, hrest⟩ := h.split (join_cons_cons [sep] p q pieces) hsep
    rcases List.mem_cons.mp hr with rfl | hr
    · exact hp
    · exact WellFormed.of_join hsep hrest r hr

theorem WellFormed.lines {t : Text} (h : WellFormed t) : ∀ line ∈ t.lines, WellFormed line := by
  have hjoin : WellFormed (Text.join [0x0A] t.lines) := by
    rw [Text.lines, join_splitOn]
    exact h
  exact WellFormed.of_join (by decide) hjoin

end Text

end Typeahead
