import Mathlib.Data.List.Infix
import Typeahead.Proofs.EngineRun

/-!
# Where waiting keys come from

The keys that wait are the last of all keys that were ever shown ahead, in the order in which they were
shown: each call takes keys from the front of the queue and adds what it shows behind them.  Input never
takes a key away, and a pause key is never one of them.
-/

namespace Typeahead

namespace Engine

variable {τ : Type} [ClockTime τ]

theorem keyAt_cases (e : Engine τ) (now : τ) (input : Text) : e.keyAt now input = [] ∨
    ∃ u, input = [u] ∧ isEchoed u = true ∧ e.keyAt now input = [u] := by
  unfold keyAt
  split
  · exact Or.inl rfl
  · unfold keyOf
    split
    · split
      · rename_i u hu
        exact Or.inr ⟨u, rfl, hu, rfl⟩
      · exact Or.inl rfl
    · exact Or.inl rfl

theorem isEchoed_of_mem_keyAt {e : Engine τ} {now : τ} {input : Text} {u : CodeUnit}
    (h : u ∈ e.keyAt now input) : isEchoed u = true := by
  rcases e.keyAt_cases now input with hnone | ⟨v, _, hv, hkey⟩
  · rw [hnone] at h
    cases h
  · rw [hkey, List.mem_singleton] at h
    exact h ▸ hv

theorem isEchoed_of_mem_typeKeys {now : τ} {u : CodeUnit} : ∀ {keys : List Text} {e : Engine τ},
    u ∈ (e.typeKeys now keys).2.shown → isEchoed u = true
  | [], _, h => by cases h
  | key :: rest, e, h => by
    rw [typeKeys, Effect.shown_append, List.mem_append, echo_shown] at h
    exact h.elim isEchoed_of_mem_keyAt isEchoed_of_mem_typeKeys

theorem isEchoed_of_mem_ahead {e : Engine τ} {t : TimedCall τ} {u : CodeUnit} (h : u ∈ e.ahead t) :
    isEchoed u = true := by
  unfold ahead at h
  split at h
  · rw [echo_shown] at h
    exact isEchoed_of_mem_keyAt h
  · exact isEchoed_of_mem_typeKeys h
  · cases h

/-! ## Over a run -/

def echoed (e : Engine τ) (c : Classifier) : List (TimedCall τ) → Text
  | [] => []
  | t :: rest => e.ahead t ++ (e.call c t.now t.op).2.1.echoed c rest

theorem isEchoed_of_mem_echoed {c : Classifier} {u : CodeUnit} : ∀ {calls : List (TimedCall τ)} {e : Engine τ},
    u ∈ e.echoed c calls → isEchoed u = true
  | [], _, h => by cases h
  | _ :: _, _, h => (List.mem_append.mp h).elim isEchoed_of_mem_ahead isEchoed_of_mem_echoed

theorem run_pending_suffix (c : Classifier) : ∀ (calls : List (TimedCall τ)) (e : Engine τ),
    (e.run c calls).1.pending <:+ e.pending ++ e.echoed c calls
  | [], e => by simp [run, echoed]
  | t :: rest, e => by
    -- what the call takes comes before all that is shown later
    obtain ⟨taken, hcall⟩ := e.call_pending_suffix c t
    refine (run_pending_suffix c rest _).trans ⟨taken, ?_⟩
    rw [echoed, ← List.append_assoc, hcall, List.append_assoc]

theorem fresh_run_pending (c : Classifier) (calls : List (TimedCall τ)) :
    let e := ((fresh : Engine τ).run c calls).1
    e.pending <:+ (fresh : Engine τ).echoed c calls ∧
      ∀ u ∈ e.pending, 0x20 ≤ u.toNat ∧ u.toNat ≤ 0x7E ∨ u.toNat = 0x08 := by
  intro e
  have h : e.pending <:+ (fresh : Engine τ).echoed c calls := run_pending_suffix c calls fresh
  exact ⟨h, fun u hu => (isEchoed_iff u).mp (isEchoed_of_mem_echoed (h.subset hu))⟩

end Engine

/-! ## Input -/

theorem Session.react_cases (s : Session) (now : Binary64) (t : Text) :
    (s.react now t).1.engine.pending = s.engine.pending ∧ (s.react now t).2 = .none ∨
    ∃ u, t = [u] ∧ Engine.isEchoed u = true ∧ t ∉ s.pauseOn ∧
      (s.react now t).1.engine.pending = s.engine.pending ++ t ∧ (s.react now t).2 = .write t := by
  unfold react
  split
  · split
    · split
      · rename_i hempty
        exact Or.inl ⟨(List.isEmpty_iff.mp hempty).symm, rfl⟩
      · exact Or.inl ⟨rfl, rfl⟩
    · rename_i hkey
      rcases s.engine.keyAt_cases now t with hnone | ⟨u, rfl, hechoed, hu⟩
      · exact Or.inl (by simp [Engine.echo_eq, hnone, Engine.pending, Effect.none])
      · refine Or.inr ⟨u, rfl, hechoed, fun hin => hkey (List.contains_iff_mem.mpr hin), ?_⟩
        simp [Engine.echo_eq, hu, Engine.pending, Effect.write]
  · exact Or.inl ⟨rfl, rfl⟩

theorem Console.input_cases (k : Console) (c : Classifier) (t : Text) :
    (k.input c .silent t).1.session.engine.pending = k.session.engine.pending ∧
      (k.input c .silent t).2.writes = [] ∨
    ∃ u, t = [u] ∧ t ∉ k.session.pauseOn ∧
      (k.input c .silent t).1.session.engine.pending = k.session.engine.pending ++ t ∧
      (k.input c .silent t).2.writes = [t] := by
  cases hd : k.session.disposed with
  | true => exact Or.inl (by simp [input, hd, Effect.logLine])
  | false =>
    rw [input_silent hd]
    rcases k.session.react_cases k.clock t with ⟨hp, hw⟩ | ⟨u, hu, _, hkey, hp, hw⟩
    · exact Or.inl ⟨hp, by rw [hw]; rfl⟩
    · exact Or.inr ⟨u, hu, hkey, hp, by rw [hw]; rfl⟩

/-- **Waiting keys are the last that were shown.**  After every run of an engine or of a session the keys
that wait are an end of all keys shown ahead since it was made, in that order, and each is printable ASCII
or a backspace.  Input that is not answered at once leaves the queue as it was and shows nothing, or is one
unit, shown once and added at the end; a pause key is never added. -/
theorem pending_ends_echoed {τ : Type} [ClockTime τ] (c : Classifier) :
    (∀ calls : List (TimedCall τ),
      let e := ((Engine.fresh : Engine τ).run c calls).1
      e.pending <:+ (Engine.fresh : Engine τ).echoed c calls ∧
        ∀ u ∈ e.pending, 0x20 ≤ u.toNat ∧ u.toNat ≤ 0x7E ∨ u.toNat = 0x08) ∧
    (∀ config clock remote run,
      let k := Console.start config clock
      let waiting := (k.turns c remote run).1.session.engine.pending
      waiting <:+ k.session.engine.echoed c (k.callsAlong c (run.flatMap (Console.Turn.answered remote))) ∧
        ∀ u ∈ waiting, 0x20 ≤ u.toNat ∧ u.toNat ≤ 0x7E ∨ u.toNat = 0x08) ∧
    ∀ (k : Console) (t : Text),
      let r := k.input c .silent t
      let unchanged := r.1.session.engine.pending = k.session.engine.pending ∧ r.2.writes = []
      (unchanged ∨ t.length = 1 ∧ r.1.session.engine.pending = k.session.engine.pending ++ t ∧
        r.2.writes = [t]) ∧
      (k.session.active = true → t ∈ k.session.pauseOn → unchanged) := by
  refine ⟨Engine.fresh_run_pending c, ?_, ?_⟩
  · intro config clock remote run k waiting
    have hk := Console.start_wired config clock
    have hwaiting : waiting =
        (k.session.engine.run c (k.callsAlong c (run.flatMap (Console.Turn.answered remote)))).1.pending := by
      rw [← Console.turns_engine c _ hk, ← Console.turns_eq_answered c remote run hk]
    rw [hwaiting]
    exact Engine.fresh_run_pending c _
  · intro k t r unchanged
    rcases k.input_cases c t with h | ⟨u, hu, hkey, hp, hw⟩
    · exact ⟨Or.inl h, fun _ _ => h⟩
    · exact ⟨Or.inr ⟨by rw [hu]; rfl, hp, hw⟩, fun _ hin => absurd hin hkey⟩

def pausesAtLetter : Console :=
  ((Console.start ⟨true, .ofNat 500, [[0x65]]⟩ 0).turns .standard .silent [.call (.input [0x68])]).1

theorem pending_ends_echoed_printable_pause :
    pausesAtLetter.session.active = true ∧ [0x65] ∈ pausesAtLetter.session.pauseOn ∧
      (pausesAtLetter.input .standard .silent [0x65]).1.session.engine.pending = [0x68] := by
  have hactive : pausesAtLetter.session.active = true := by decide +kernel
  have hkey : [0x65] ∈ pausesAtLetter.session.pauseOn := by decide +kernel
  have hpending : pausesAtLetter.session.engine.pending = [0x68] := by decide +kernel
  have hinput := ((pending_ends_echoed (τ := Binary64) .standard).2.2 pausesAtLetter [0x65]).2 hactive hkey
  exact ⟨hactive, hkey, hinput.1.trans hpending⟩

end Typeahead
