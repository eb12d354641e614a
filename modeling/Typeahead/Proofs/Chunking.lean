import Typeahead.Control.Grammar
import Typeahead.Number.Binary64
import Typeahead.Proofs.Reconciliation

/-!
# Chunks cut in two

Remote output may be cut anywhere outside a control span.  A cut falls inside one literal at most
(`Classifier.segments_append`), and a literal comes to the same in one piece as in two
(`literal_append`), except for the text shown around a mismatch: the whole literal is held against the
display in one case, and only one of its pieces in the other.
-/

namespace Typeahead

namespace Account

/-- Accounts that differ at most in the text shown, and that only after a mismatch. -/
structure Alike (a b : Account) : Prop where
  queue : a.queue = b.queue
  mismatches : a.mismatches.length = b.mismatches.length
  shown : a.mismatches = [] → a.shown = b.shown

theorem Alike.refl (a : Account) : Alike a a := ⟨rfl, rfl, fun _ => rfl⟩

theorem Alike.andThen {a a' b b' : Account} (h : Alike a a') (h' : Alike b b') :
    Alike (a.andThen b) (a'.andThen b') where
  queue := h'.queue
  mismatches := by simp [Account.andThen, h.mismatches, h'.mismatches]
  shown hm := by
    obtain ⟨ha, hb⟩ := List.append_eq_nil_iff.mp hm
    simp only [Account.andThen, h.shown ha, h'.shown hb]

theorem take_append_prefix_iff (q l l' : Text) : q.take (l ++ l').length <+: l ++ l' ↔
    q.take l.length <+: l ∧ (q.drop l.length).take l'.length <+: l' := by
  rw [List.length_append, List.take_add]
  rcases Nat.le_total l.length q.length with hlen | hlen
  · have htake : (q.take l.length).length = l.length := by rw [List.length_take]; omega
    constructor
    · intro h
      have hl : q.take l.length = l :=
        (List.prefix_of_prefix_length_le ((List.prefix_append _ _).trans h) (List.prefix_append _ _)
          (Nat.le_of_eq htake)).eq_of_length htake
      rw [hl, List.prefix_append_right_inj] at h
      exact ⟨by simp only [hl, List.prefix_rfl], h⟩
    · rintro ⟨hl, h⟩
      rw [hl.eq_of_length htake, List.prefix_append_right_inj]
      exact h
  · -- all keys fall to the first text
    rw [List.drop_of_length_le hlen, List.take_of_length_le hlen, List.take_nil, List.append_nil]
    constructor
    · intro h
      exact ⟨List.prefix_of_prefix_length_le h (List.prefix_append _ _) hlen, List.nil_prefix⟩
    · rintro ⟨h, _⟩
      exact h.trans (List.prefix_append _ _)

theorem literal_append (q l l' : Text) :
    Alike (literal q (l ++ l')) ((literal q l).andThen (literal (literal q l).queue l')) := by
  rw [literal_eq q (l ++ l'), literal_eq q l]
  by_cases hl : q.take l.length <+: l
  · rw [if_pos hl, literal_eq (q.drop l.length) l']
    by_cases hl' : (q.drop l.length).take l'.length <+: l'
    · rw [if_pos hl', if_pos ((take_append_prefix_iff q l l').mpr ⟨hl, hl'⟩)]
      exact ⟨by simp [Account.andThen], rfl, fun _ => by simp [Account.andThen, List.drop_append]⟩
    · rw [if_neg hl', if_neg (fun h => hl' ((take_append_prefix_iff q l l').mp h).2)]
      exact ⟨rfl, rfl, fun h => absurd h (List.cons_ne_nil _ _)⟩
  · -- what is left of the literal finds the queue empty
    rw [if_neg hl, if_neg (fun h => hl ((take_append_prefix_iff q l l').mp h).1), literal_nil_keys]
    exact ⟨rfl, rfl, fun h => absurd h (List.cons_ne_nil _ _)⟩

theorem walk_append_literal (q : Text) (before after : List Segment) (l l' : Text) :
    Alike (walk q (before ++ .literal (l ++ l') :: after))
      (walk q (before ++ .literal l :: .literal l' :: after)) := by
  rw [walk_append, walk_append]
  refine (Alike.refl _).andThen ?_
  have h := literal_append (walk q before).queue l l'
  have hq : (literal (literal (walk q before).queue l).queue l').queue =
      (literal (walk q before).queue (l ++ l')).queue := h.queue.symm
  simp only [walk, step, ← andThen_assoc]
  rw [hq]
  exact h.andThen (Alike.refl _)

end Account

namespace Engine

variable {τ : Type}

/-- **Chunks may be cut.**  If no control span lies across the cut, two chunks leave the same keys and
find and log as many mismatches as the chunk they make up, at most one, and if there is none they show
the same. -/
theorem write_append_agrees (e : Engine τ) (c : Classifier) (a b : Text)
    (h : c.spans (a ++ b) = c.spans a ++ (c.spans b).map (·.shift a.length)) :
    let whole := e.write c (a ++ b)
    let first := e.write c a
    let second := first.1.write c b
    whole.1.pending = second.1.pending ∧ ∃ n ≤ 1,
      whole.1.mismatches.count = e.mismatches.count + n ∧
      second.1.mismatches.count = e.mismatches.count + n ∧
      whole.2.log.length = n ∧ (first.2 ++ second.2).log.length = n ∧
      (n = 0 → whole.2.shown = first.2.shown ++ second.2.shown) := by
  intro whole first second
  obtain ⟨before, l, l', after, ha, hb, hab⟩ := Classifier.segments_append h
  have hwhole := e.write_settles c (a ++ b)
  have hfirst := e.write_settles c a
  have hsecond := first.1.write_settles c b
  rw [hfirst.pending] at hsecond
  have htwo := hfirst.andThen hsecond
  rw [← Account.walk_append, ha, hb, List.append_assoc, List.singleton_append] at htwo
  rw [hab] at hwhole
  have hlike := Account.walk_append_literal e.pending before after l l'
  refine ⟨by rw [hwhole.pending, htwo.pending, hlike.queue], _, Account.walk_mismatches_le e.pending _,
    hwhole.count, by rw [htwo.count, hlike.mismatches], by rw [hwhole.log, List.length_map],
    by rw [htwo.log, List.length_map, hlike.mismatches], fun hn => ?_⟩
  rw [hwhole.shown, hlike.shown (List.length_eq_zero_iff.mp hn), ← htwo.shown, Effect.shown_append]

/-- Four keys wait, the last a backspace; the chunk is cut inside the literal that confirms two of them. -/
theorem write_append_agrees_inside_literal :
    let e : Engine Binary64 := { Engine.fresh with queue := ⟨[0x61, 0x62, 0x63, 0x08]⟩ }
    let a : Text := [0x61, 0x1B, 0x5B, 0x4B, 0x62]
    let b : Text := [0x63, 0x08, 0x21]
    Classifier.standard.spans (a ++ b) =
        Classifier.standard.spans a ++ (Classifier.standard.spans b).map (·.shift a.length) ∧
      (e.write .standard (a ++ b)).1.pending = ((e.write .standard a).1.write .standard b).1.pending :=
  ⟨by decide +kernel, (write_append_agrees _ _ _ _ (by decide +kernel)).1⟩

end Engine

end Typeahead
