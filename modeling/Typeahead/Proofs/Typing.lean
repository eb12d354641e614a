import Typeahead.Echo.Engine

/-!
# Typing

What a key does to an engine, in one equation (`Engine.echo_eq`): the key that is shown ahead, if any,
goes to the display and to the back of the queue.
-/

namespace Typeahead

@[simp] theorem PauseGate.isPaused_opened {τ : Type} [ClockTime τ] (now : τ) :
    (opened : PauseGate τ).isPaused now = (false, opened) := rfl

theorem PauseGate.isPaused_cases {τ : Type} [ClockTime τ] (g : PauseGate τ) (now : τ) :
    g.deadline ≠ none ∧ g.isPaused now = (true, g) ∨ g.isPaused now = (false, opened) := by
  obtain ⟨deadline⟩ := g
  cases deadline with
  | none => exact Or.inr rfl
  | some deadline =>
    simp only [isPaused]
    split
    · exact Or.inl ⟨Option.some_ne_none _, rfl⟩
    · exact Or.inr rfl

theorem PauseGate.isPaused_snd {τ : Type} [ClockTime τ] (g : PauseGate τ) (now : τ) :
    (g.isPaused now).2 = g ∨ (g.isPaused now).2 = opened := by
  rcases g.isPaused_cases now with ⟨_, h⟩ | h
  · exact Or.inl (by rw [h])
  · exact Or.inr (by rw [h])

namespace Engine

def keyOf : Text → Text
  | [u] => if isEchoed u then [u] else []
  | _ => []

theorem isEchoed_iff (u : CodeUnit) :
    isEchoed u = true ↔ 0x20 ≤ u.toNat ∧ u.toNat ≤ 0x7E ∨ u.toNat = 0x08 := by
  simp [isEchoed, Control.backspace, UInt16.le_iff_toNat_le, ← UInt16.toNat_inj]

variable {τ : Type} [ClockTime τ]

/-- The key that input shows at a reading of the clock: none while echo is held back. -/
def keyAt (e : Engine τ) (now : τ) (input : Text) : Text :=
  if (e.gate.isPaused now).1 then [] else keyOf input

theorem keyAt_of_open {e : Engine τ} {now : τ} (h : (e.gate.isPaused now).1 = false) (input : Text) :
    e.keyAt now input = keyOf input := by
  simp [keyAt, h]

theorem echo_eq (e : Engine τ) (now : τ) (input : Text) : e.echo now input =
    ({ e with queue := ⟨e.pending ++ e.keyAt now input⟩, gate := (e.gate.isPaused now).2 },
      ⟨(e.keyAt now input).map fun u => [u], []⟩) := by
  simp only [echo, isPaused, keyAt, pending]
  split
  · rename_i h
    simp only [Prod.mk.injEq] at h
    simp [h.1, ← h.2, Effect.none]
  · rename_i h
    simp only [Prod.mk.injEq] at h
    rw [h.1, ← h.2]
    split
    · simp only [keyOf]
      split <;> simp [EchoQueue.record, Effect.write, Effect.none]
    · simp [keyOf, Effect.none]

@[simp] theorem echo_pending (e : Engine τ) (now : τ) (input : Text) :
    (e.echo now input).1.pending = e.pending ++ e.keyAt now input := by
  rw [echo_eq]; rfl

@[simp] theorem echo_shown (e : Engine τ) (now : τ) (input : Text) :
    (e.echo now input).2.shown = e.keyAt now input := by
  rw [echo_eq]
  exact List.flatMap_singleton' _

theorem echo_of_shut {e : Engine τ} {now : τ} (h : e.gate.isPaused now = (true, e.gate)) (input : Text) :
    e.echo now input = (e, .none) := by
  simp [echo, isPaused, h]

theorem echo_of_open {e : Engine τ} {now : τ} {u : CodeUnit} (hu : isEchoed u = true)
    (hopen : (e.gate.isPaused now).1 = false) :
    e.echo now [u] = ({ e with queue := ⟨e.pending ++ [u]⟩, gate := .opened }, .write [u]) := by
  have hkey : e.keyAt now [u] = [u] := by rw [keyAt_of_open hopen, keyOf, if_pos hu]
  rcases e.gate.isPaused_cases now with ⟨_, hp⟩ | hp
  · rw [hp] at hopen
    cases hopen
  · rw [echo_eq, hkey, hp]
    rfl

end Engine

end Typeahead
