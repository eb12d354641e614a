import Typeahead.Proofs.DirectOutput
import Typeahead.Proofs.Display
import Typeahead.Proofs.Provenance

/-!
# Input that comes straight back

The remote side sends all input back before sending it has returned.  A key that was shown ahead waits by
then, so it is confirmed and not shown again; all other input meets an empty queue and is shown as it comes
back.  Either way it is shown once and nothing waits afterwards (`Session.receive_react`), whatever pauses and
switches of echo lie between.  Only a lone backspace is shown again, and is left out here.
-/

namespace Typeahead

namespace Engine

variable {τ : Type}

theorem spans_key {u : CodeUnit} (hu : isEchoed u = true) (hb : u ≠ Control.backspace) :
    Classifier.standard.spans [u] = [] := by
  have hnone : Classifier.standard.spans [u] = (Classifier.standard.spans []).map (·.shift 1) :=
    Pattern.spans_of_none (length?_of_isEchoed hu hb [])
  rw [hnone, Classifier.spans_nil]
  rfl

theorem write_pending_of_key {e : Engine τ} {u : CodeUnit} (hq : e.pending = [u]) (hu : isEchoed u = true)
    (hb : u ≠ Control.backspace) : (e.write .standard [u]).1.pending = [] := by
  rw [(e.write_settles .standard [u]).pending, hq, Classifier.segments_of_spans_nil (spans_key hu hb)]
  simp [Account.walk, Account.step, Account.literal_eq, Account.andThen]

end Engine

namespace Session

/-- Input that comes back at once leaves nothing waiting and keeps the balance. -/
theorem receive_react {s : Session} (hq : s.engine.pending = []) (now : Binary64) {t : Text}
    (ht : t ≠ [Control.backspace]) :
    let r := s.react now t
    let r' := r.1.receive .standard t
    s.Balanced t (r'.1, r.2 ++ r'.2) ∧ r'.1.engine.pending = [] := by
  intro r r'
  have hreact : s.Balanced [] r := s.react_balanced now t
  have hidle : r.1.active = false → r.1.engine.pending = [] := by
    intro hoff
    rw [hreact.idle (hreact.active.symm.trans hoff)]
    exact hq
  have hengine : r'.1.engine = (r.1.engine.write .standard t).1 :=
    (congrArg engine (receive_agrees hidle .standard t).1).symm
  rcases s.react_cases now t with ⟨hp, _⟩ | ⟨u, rfl, hu, _, hp, _⟩
  · have hp : r.1.engine.pending = [] := hp.trans hq
    refine ⟨hreact.append (receive_balanced hidle fun hne => absurd hp hne), ?_⟩
    rw [hengine, Engine.write_fst_of_nil hp]
    exact hp
  · have hp : r.1.engine.pending = [u] := by rw [hp, hq, List.nil_append]
    have hb : u ≠ Control.backspace := fun h => ht (congrArg (fun v => [v]) h)
    refine ⟨hreact.append (receive_balanced hidle fun _ => ⟨?_, ?_⟩), ?_⟩
    · exact Engine.spans_key hu hb
    · exact Or.inl (hp ▸ List.prefix_rfl)
    · rw [hengine]
      exact Engine.write_pending_of_key hp hu hb

end Session

namespace Console

open Classifier (standard)

structure Settled (k : Console) : Prop where
  live : k.Live
  pending : k.session.engine.pending = []
  mismatches : k.session.engine.mismatches = .empty

theorem start_settled (config : EchoConfig) (clock : Binary64) : Settled (start config clock) :=
  ⟨start_live config clock, rfl, rfl⟩

structure Shows (t : Text) (r : Console × Effect) : Prop where
  settled : r.1.Settled
  shown : r.2.shown = t
  log : r.2.log = []

theorem Shows.nil {k : Console} (hk : k.Settled) : Shows [] (k, .none) := ⟨hk, rfl, rfl⟩

theorem Shows.append {t t' : Text} {r r' : Console × Effect} (h : Shows t r) (h' : Shows t' r') :
    Shows (t ++ t') (r'.1, r.2 ++ r'.2) where
  settled := h'.settled
  shown := by rw [Effect.shown_append, h.shown, h'.shown]
  log := by rw [Effect.append_log, h.log, h'.log]; rfl

theorem input_loopback {k : Console} (hk : k.Live) (t : Text) : k.input standard .loopback t =
    ({ k with session := ((k.session.react k.clock t).1.receive standard t).1, channel := k.channel.send t },
      (k.session.react k.clock t).2 ++ ((k.session.react k.clock t).1.receive standard t).2) := by
  have hlive := hk.input standard .silent t
  rw [input_silent hk.disposed] at hlive
  rw [input_eq_answered standard .loopback hk.wired, answeredInput, turns_cons]
  simp only [Remote.loopback, List.map_cons, List.map_nil, turns, turn, call, input_silent hk.disposed,
    output_eq hlive, Effect.append_none]

theorem Settled.input {k : Console} (hk : k.Settled) {t : Text} (ht : t ≠ [Control.backspace]) :
    Shows t (k.input standard .loopback t) := by
  obtain ⟨hb, hp⟩ := Session.receive_react hk.pending k.clock ht
  rw [input_loopback hk.live]
  refine ⟨⟨hk.live.of_balanced rfl hb, hp, hb.mismatches.trans hk.mismatches⟩, ?_, hb.log⟩
  have htext := hb.text
  rw [hk.pending, List.nil_append] at htext
  rw [htext]
  exact (congrArg (t ++ ·) hp).trans (List.append_nil t)

def Turn.typed : Turn → Text
  | .call (.input t) | .call (.type t) => t
  | _ => []

theorem Settled.inputs {keys : List Text} {k : Console} (hk : k.Settled)
    (hkeys : ∀ key ∈ keys, key ≠ [Control.backspace]) :
    Shows keys.flatten (k.inputs standard .loopback keys) := by
  rw [← List.flatMap_id]
  refine (inputs_carry (Q := fun _ => Shows) Shows.nil Shows.append ?_ hk).2
  intro key hkey k hk
  have hinput := hk.input (hkeys key hkey)
  exact ⟨hinput.settled, hinput⟩

/-- Input that is no lone backspace, a move of the clock, or a call that shows nothing itself. -/
def Turn.isPlain : Turn → Bool
  | .call (.input t) => t != [Control.backspace]
  | .call (.type t) => !t.codePoints.contains [Control.backspace]
  | .call (.output _) | .call .dispose => false
  | .call (.engine (.echo _)) | .call (.engine (.type _)) | .call (.engine (.write _)) => false
  | _ => true

theorem Settled.of_session {k : Console} (hk : k.Settled) {s : Session} {clock : Binary64}
    (hd : s.disposed = k.session.disposed) (hp : s.engine.pending = [])
    (hm : s.engine.mismatches = .empty) : Shows [] (⟨s, k.channel, clock⟩, .none) :=
  ⟨⟨⟨hk.live.listening, hd.trans hk.live.disposed, fun _ => hp⟩, hp, hm⟩, rfl, rfl⟩

theorem Settled.turn {k : Console} (hk : k.Settled) {t : Turn} (ht : t.isPlain = true) :
    Shows t.typed (k.turn standard .loopback t) := by
  match t with
  | .call (.input t) => exact hk.input (bne_iff_ne.mp ht)
  | .call (.type t) =>
    have hkeys : ∀ key ∈ t.codePoints, key ≠ [Control.backspace] := by
      rintro key hkey rfl
      have hin := List.contains_iff_mem.mpr hkey
      simp only [Turn.isPlain, hin] at ht
      cases ht
    have hinputs := hk.inputs hkeys
    rwa [Text.codePoints_flatten] at hinputs
  | .call (.setLocalEcho true) => exact hk.of_session rfl hk.pending hk.mismatches
  | .call (.setLocalEcho false) => exact hk.of_session rfl rfl hk.mismatches
  | .call .clear => exact hk.of_session rfl rfl hk.mismatches
  | .call (.advance _) | .call .diagnostics | .clock _ => exact hk.of_session rfl hk.pending hk.mismatches
  | .call (.engine (.pause _)) | .call (.engine .clear) => exact hk.of_session rfl rfl hk.mismatches
  | .call (.engine .resume) | .call (.engine .isPaused) | .call (.engine .isEmpty) | .call (.engine .pending)
  | .call (.engine .diagnostics) | .call (.engine .entryCount) =>
    exact hk.of_session rfl hk.pending hk.mismatches
  | .call (.engine .resetDiagnostics) => exact hk.of_session rfl hk.pending rfl

theorem Settled.turns {run : List Turn} {k : Console} (hk : k.Settled) (hrun : ∀ t ∈ run, t.isPlain = true) :
    Shows (run.flatMap Turn.typed) (k.turns standard .loopback run) := by
  refine (turns_carry (Q := fun _ => Shows) Shows.nil Shows.append ?_ hk (along_of_forall _ _ k hrun)).2
  intro k t hk ht
  have hturn := hk.turn ht
  exact ⟨hturn.settled, hturn⟩

/-- **Input that comes straight back is shown once**, whether it was shown ahead or not.  The remote side sends
each input back at once, and no input is a lone backspace.  After every turn nothing waits, no mismatch was
found, and the text shown is all input so far; each turn shows its own input. -/
theorem loopback_shows_input_once (config : EchoConfig) (clock : Binary64) (run : List Turn)
    (hrun : ∀ t ∈ run, t.isPlain = true) : ∀ done, done <+: run →
      let r := (start config clock).turns standard .loopback done
      r.1.session.engine.pending = [] ∧ r.1.session.engine.mismatches = .empty ∧ r.2.log = [] ∧
        r.2.shown = done.flatMap Turn.typed ∧
        ∀ t, done ++ [t] <+: run → (r.1.turn standard .loopback t).2.shown = t.typed := by
  intro done hd r
  have hr : Shows (done.flatMap Turn.typed) r :=
    (start_settled config clock).turns fun t ht => hrun t (hd.subset ht)
  refine ⟨hr.settled.pending, hr.settled.mismatches, hr.log, hr.shown, fun t ht => ?_⟩
  have hplain : t.isPlain = true := hrun t (ht.subset (by simp))
  exact (hr.settled.turn hplain).shown

def plainRun : List Turn :=
  [.call (.type [0x61, 0x0D, 0x62]), .call (.input [0x1B, 0x5B, 0x41]), .call (.setLocalEcho false),
    .call (.input [0x08, 0x08]), .call (.input []), .call (.setLocalEcho true), .clock .nan, .call (.input [0x63]),
    .call (.engine (.pause (.infinity false))), .call (.input [0x64]), .call (.engine .resume),
    .call (.input [0x65])]

theorem loopback_shows_input_once_plainRun :
    (∀ t ∈ plainRun, t.isPlain = true) ∧ ((start returnPauses 0).turns standard .loopback plainRun).2.shown =
      [0x61, 0x0D, 0x62, 0x1B, 0x5B, 0x41, 0x08, 0x08, 0x63, 0x64, 0x65] := by
  have hrun : ∀ t ∈ plainRun, t.isPlain = true := by decide
  exact ⟨hrun, (loopback_shows_input_once returnPauses 0 plainRun hrun _ List.prefix_rfl).2.2.2.1⟩

end Console

end Typeahead
