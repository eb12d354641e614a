import Typeahead.Number.Binary64
import Typeahead.Proofs.Confirmation
import Typeahead.Proofs.Display
import Typeahead.Proofs.EngineRun

/-!
# A typed backspace and its echo

Keys are typed, the remote side sends them back, and output follows.  The text shown is the keys, one more
backspace for each backspace among them, and the output: a backspace that comes back is taken off the queue
and shown all the same.  So the screen is that of the keys and the output alone exactly if no backspace was
typed or the keys left the cursor in the first column.
-/

namespace Typeahead

namespace Engine

/-- A text of keys is its own confirmation, and its control spans are its backspaces. -/
theorem segments_keys : ∀ {t : Text}, (∀ u ∈ t, isEchoed u = true) →
    Segment.confirmed (Classifier.standard.segments t) = t ∧
      Segment.controls (Classifier.standard.segments t) = t.filter (· == Control.backspace)
  | [], _ => by simp [Classifier.segments_nil, Segment.confirms, Segment.controls]
  | u :: t, h => by
    obtain ⟨hu, ht⟩ := List.forall_mem_cons.mp h
    obtain ⟨hconf, hcontrols⟩ := segments_keys ht
    by_cases hb : u = Control.backspace
    · rw [Classifier.standard_segments_of_single (by rw [hb]; decide)]
      simp [Segment.confirms, Segment.controls, hb, hconf, hcontrols]
    · obtain ⟨l, after, hseg, hseg'⟩ := Classifier.standard_segments_of_none (length?_of_isEchoed hu hb t)
      rw [hseg] at hconf hcontrols
      rw [hseg']
      simp_all [Segment.confirms, Segment.controls]

variable {τ : Type}

theorem write_keys {e : Engine τ} {chunk rest : Text} (hq : e.pending = chunk ++ rest)
    (hkeys : ∀ u ∈ chunk, isEchoed u = true) :
    e.Settles ⟨rest, chunk.filter (· == Control.backspace), []⟩ (e.write .standard chunk) := by
  obtain ⟨hconf, hcontrols⟩ := segments_keys hkeys
  have hwalk := Account.walk_confirmed (Classifier.standard.segments chunk) rest
  rw [hconf, hcontrols] at hwalk
  rw [← hwalk, ← hq]
  exact e.write_settles .standard chunk

section
variable [ClockTime τ]

def typing (keys : List (τ × CodeUnit)) : List (TimedCall τ) := keys.map fun k => ⟨k.1, .echo [k.2]⟩

def arriving (chunks : List (τ × Text)) : List (TimedCall τ) := chunks.map fun k => ⟨k.1, .write k.2⟩

theorem run_typing (c : Classifier) : ∀ {keys : List (τ × CodeUnit)} {e : Engine τ},
    (∀ k ∈ keys, isEchoed k.2 = true) → (∀ k ∈ keys.head?, (e.gate.isPaused k.1).1 = false) →
    (e.run c (typing keys)).1.pending = e.pending ++ keys.map Prod.snd ∧
      (e.run c (typing keys)).2.shown = keys.map Prod.snd ∧ (e.run c (typing keys)).2.log = []
  | [], e, _, _ => by simp [typing, run]
  | (now, u) :: keys, e, hkeys, hopen => by
    obtain ⟨hu, hkeys⟩ := List.forall_mem_cons.mp hkeys
    have hecho := echo_of_open hu (hopen _ rfl)
    -- the first key has opened the gate for the rest
    obtain ⟨hpending, hshown, hlog⟩ := run_typing c (e := (e.echo now [u]).1) hkeys
      fun k _ => by rw [hecho]; rfl
    simp only [typing, List.map_cons, run_cons, call] at hpending hshown hlog ⊢
    refine ⟨?_, ?_, ?_⟩
    · rw [hpending, hecho]
      simp [pending]
    · rw [Effect.shown_append, hshown, hecho]
      simp
    · rw [Effect.append_log, hlog, hecho]
      rfl

theorem run_arriving : ∀ {chunks : List (τ × Text)} {e : Engine τ} {rest : Text},
    (∀ k ∈ chunks, ∀ u ∈ k.2, isEchoed u = true) → e.pending = chunks.flatMap Prod.snd ++ rest →
    (e.run .standard (arriving chunks)).1.pending = rest ∧
      (e.run .standard (arriving chunks)).2.shown =
        (chunks.flatMap Prod.snd).filter (· == Control.backspace) ∧
      (e.run .standard (arriving chunks)).2.log = []
  | [], e, _, _, hq => by simpa [arriving, run] using hq
  | (now, chunk) :: chunks, e, rest, hkeys, hq => by
    obtain ⟨hchunk, hkeys⟩ := List.forall_mem_cons.mp hkeys
    rw [List.flatMap_cons, List.append_assoc] at hq
    have hw := write_keys hq hchunk
    obtain ⟨hpending, hshown, hlog⟩ := run_arriving (e := (e.write .standard chunk).1) hkeys hw.pending
    simp only [arriving, List.map_cons, run_cons, call] at hpending hshown hlog ⊢
    refine ⟨hpending, ?_, ?_⟩
    · rw [Effect.shown_append, hw.shown, hshown]
      simp
    · rw [Effect.append_log, hw.log, hlog]
      rfl

def roundTrip (keys : List (τ × CodeUnit)) (chunks : List (τ × Text)) (now : τ) (later : Text) :
    List (TimedCall τ) := typing keys ++ arriving chunks ++ [⟨now, .write later⟩]

theorem run_roundTrip {e : Engine τ} {keys : List (τ × CodeUnit)} {chunks : List (τ × Text)} (hq : e.pending = [])
    (hkeys : ∀ k ∈ keys, isEchoed k.2 = true) (hopen : ∀ k ∈ keys.head?, (e.gate.isPaused k.1).1 = false)
    (hback : chunks.flatMap Prod.snd = keys.map Prod.snd) (now : τ) (later : Text) :
    (e.run .standard (roundTrip keys chunks now later)).1.pending = [] ∧
      (e.run .standard (roundTrip keys chunks now later)).2.shown =
        keys.map Prod.snd ++ (keys.map Prod.snd).filter (· == Control.backspace) ++ later ∧
      (e.run .standard (roundTrip keys chunks now later)).2.log = [] := by
  obtain ⟨hpending, hshown, hlog⟩ := run_typing .standard hkeys hopen
  rw [hq, List.nil_append, ← hback, ← List.append_nil (chunks.flatMap Prod.snd)] at hpending
  have hchunks : ∀ k ∈ chunks, ∀ u ∈ k.2, isEchoed u = true := by
    intro k hk u hu
    have hmem : u ∈ keys.map Prod.snd := hback ▸ List.mem_flatMap.mpr ⟨k, hk, hu⟩
    obtain ⟨key, hkey, rfl⟩ := List.mem_map.mp hmem
    exact hkeys key hkey
  obtain ⟨hpending', hshown', hlog'⟩ := run_arriving hchunks hpending
  have hlater := write_settles_of_nil hpending' .standard later
  rw [roundTrip, run_append, run_append, run_single, call]
  refine ⟨hlater.pending, ?_, ?_⟩
  · rw [Effect.shown_append, Effect.shown_append, hshown, hshown', hlater.shown, hback]
  · rw [Effect.append_log, Effect.append_log, hlog, hlog', hlater.log]
    rfl

end

end Engine

namespace Screen

theorem exists_other_key (cell : Option CodeUnit) :
    ∃ u, Engine.isEchoed u = true ∧ u ≠ Control.backspace ∧ cell ≠ some u := by
  by_cases h : cell = some 0x41
  · exact ⟨0x42, by decide, by decide, by rw [h]; decide⟩
  · exact ⟨0x41, by decide, by decide, h⟩

/-- Backspaces after keys go unseen, whatever follows, exactly if there are none or the cursor stands in the
first column. -/
theorem render_backspaces_iff {keys : Text} (hkeys : ∀ u ∈ keys, Engine.isEchoed u = true) (n : Nat) :
    (∀ t, renderScreen .standard (keys ++ List.replicate n Control.backspace ++ t) =
      renderScreen .standard (keys ++ t)) ↔ n = 0 ∨ (ofText .standard keys).column = 0 := by
  have hback : ∀ u ∈ List.replicate n Control.backspace, Engine.isEchoed u = true := by
    intro u hu
    rw [List.eq_of_mem_replicate hu]
    rfl
  have hplay (t : Text) : renderScreen .standard (keys ++ List.replicate n Control.backspace ++ t) =
      ({ ofText .standard keys with column := (ofText .standard keys).column - n }.playRow
        (Classifier.standard.segments t)).display := by
    rw [renderScreen, ofText_eq, List.append_assoc, play_keys hkeys, play_keys hback, foldl_backspaces,
      ofText_keys hkeys]
  have hplay₀ (t : Text) : renderScreen .standard (keys ++ t) =
      ((ofText .standard keys).playRow (Classifier.standard.segments t)).display := by
    rw [renderScreen, ofText_eq, play_keys hkeys, ofText_keys hkeys]
  constructor
  · intro h
    by_contra hne
    obtain ⟨hn, hcolumn⟩ := not_or.mp hne
    obtain ⟨shown, hspells⟩ := Spells.keys keys blank_spells
    rw [← ofText_keys hkeys] at hspells
    -- a letter that follows tells the two cursors apart
    have hleft : (ofText .standard keys).column - n < (ofText .standard keys).column := by omega
    obtain ⟨u, hu, hb, hnew⟩ := exists_other_key shown[(ofText .standard keys).column - n]?
    have hscreens := h [u]
    rw [hplay, hplay₀, play_letter hu hb, play_letter hu hb] at hscreens
    exact hspells.display_put_ne hleft hnew hscreens
  · intro h t
    have hcolumn : (ofText .standard keys).column - n = (ofText .standard keys).column := by omega
    rw [hplay, hplay₀, hcolumn]

end Screen

/-- **A typed backspace is shown again when it comes back.**  Keys typed into an engine that waits for none,
with its gate open, come back in chunks of any sizes, and output follows.  Shown are the keys, their
backspaces once more, and the output, and there is no mismatch.  The screen is that of the keys and the
output, whatever the output, exactly if no backspace was typed or the keys end in the first column. -/
theorem typed_backspaces_shown_again {τ : Type} [ClockTime τ] {e : Engine τ} {keys : List (τ × CodeUnit)}
    {chunks : List (τ × Text)} (hq : e.pending = []) (hkeys : ∀ k ∈ keys, Engine.isEchoed k.2 = true)
    (hopen : ∀ k ∈ keys.head?, (e.gate.isPaused k.1).1 = false)
    (hback : chunks.flatMap Prod.snd = keys.map Prod.snd) (now : τ) :
    let typed := keys.map Prod.snd
    let after := fun later => e.run .standard (Engine.roundTrip keys chunks now later)
    (∀ later, (after later).1.pending = [] ∧ (after later).2.log = [] ∧
      (after later).2.shown = typed ++ typed.filter (· == Control.backspace) ++ later) ∧
    ((∀ later, renderScreen .standard (after later).2.shown = renderScreen .standard (typed ++ later)) ↔
      Control.backspace ∉ typed ∨ (Screen.ofText .standard typed).column = 0) := by
  intro typed after
  have hrun (later : Text) := Engine.run_roundTrip hq hkeys hopen hback now later
  refine ⟨fun later => ⟨(hrun later).1, (hrun later).2.2, (hrun later).2.1⟩, ?_⟩
  have htyped : ∀ u ∈ typed, Engine.isEchoed u = true := by
    intro u hu
    obtain ⟨key, hkey, rfl⟩ := List.mem_map.mp hu
    exact hkeys key hkey
  have hshown (later : Text) : (after later).2.shown =
      typed ++ List.replicate (typed.count Control.backspace) Control.backspace ++ later := by
    rw [← List.filter_beq]
    exact (hrun later).2.1
  simp only [hshown]
  rw [Screen.render_backspaces_iff htyped, List.count_eq_zero]

def correctedKeys : List (Binary64 × CodeUnit) := [(0, 0x61), (0, 0x62), (.ofNat 9, 0x08)]

def correctedChunks : List (Binary64 × Text) := [(.ofNat 9, [0x61]), (.ofNat 9, [0x62, 0x08])]

theorem typed_backspaces_shown_again_after_letters : ¬ ∀ later,
    renderScreen .standard ((Engine.fresh.run .standard
      (Engine.roundTrip correctedKeys correctedChunks (.ofNat 9) later)).2.shown) =
    renderScreen .standard (correctedKeys.map Prod.snd ++ later) := by
  have hkeys : ∀ k ∈ correctedKeys, Engine.isEchoed k.2 = true := by decide
  have hback : correctedChunks.flatMap Prod.snd = correctedKeys.map Prod.snd := rfl
  rw [(typed_backspaces_shown_again (e := .fresh) rfl hkeys (by decide) hback (.ofNat 9)).2]
  decide +kernel

/-- The backspace that comes back moves the cursor once more: `X` lands on `a`, not on `b`. -/
theorem typed_backspace_misplaces_output :
    let shown := (Engine.fresh.run .standard
      (Engine.roundTrip correctedKeys correctedChunks (.ofNat 9) [0x58])).2.shown
    renderScreen .standard shown = [0x58, 0x62] ∧
      renderScreen .standard (correctedKeys.map Prod.snd ++ [0x58]) = [0x61, 0x58] := by
  decide +kernel

end Typeahead
