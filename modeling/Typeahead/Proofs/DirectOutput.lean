import Typeahead.Proofs.ByteAccuracy
import Typeahead.Proofs.EngineRun

/-!
# Output that goes past the engine

A session shows a chunk as it is when echo is off or nothing waits.  That is what its engine would have
come to: with echo off nothing waits either (`Console.Live`), and with nothing waiting the engine leaves all
as it was and shows the whole chunk.  So nothing can be told of a run by which way its output went.
-/

namespace Typeahead

structure Effect.Alike (a b : Effect) : Prop where
  shown : a.shown = b.shown
  log : a.log = b.log

theorem Effect.Alike.refl (a : Effect) : a.Alike a := ⟨rfl, rfl⟩

theorem Effect.Alike.append {a a' b b' : Effect} (h : a.Alike a') (h' : b.Alike b') :
    (a ++ b).Alike (a' ++ b') :=
  ⟨by simp [h.shown, h'.shown], by simp [h.log, h'.log]⟩

namespace Session

theorem receive_agrees {s : Session} (hs : s.active = false → s.engine.pending = []) (c : Classifier)
    (chunk : Text) : { s with engine := (s.engine.write c chunk).1 } = (s.receive c chunk).1 ∧
      (s.engine.write c chunk).2.Alike (s.receive c chunk).2 := by
  by_cases hq : s.engine.pending = []
  · have hempty : s.engine.queue.isEmpty = true := List.isEmpty_iff.mpr hq
    have hw := Engine.write_settles_of_nil hq c chunk
    rw [receive, if_pos (by simp [hempty]), Engine.write_fst_of_nil hq]
    exact ⟨rfl, by rw [hw.shown, Effect.shown_write], hw.log⟩
  · have hactive : s.active = true := Bool.of_not_eq_false fun hoff => hq (hs hoff)
    have hempty : s.engine.queue.isEmpty = false := List.isEmpty_eq_false_iff.mpr hq
    rw [receive, if_neg (by simp [hactive, hempty])]
    exact ⟨rfl, .refl _⟩

theorem receive_of_inactive {s : Session} (hs : s.active = false) (c : Classifier) (chunk : Text) :
    s.receive c chunk = (s, .write chunk) := by
  simp [receive, hs]

theorem receive_active (s : Session) (c : Classifier) (chunk : Text) :
    (s.receive c chunk).1.active = s.active := by
  unfold receive
  split <;> rfl

end Session

namespace Console

/-- Turns that a session may meet before it ends, other than keys typed past it on its engine. -/
def Turn.isRegular : Turn → Bool
  | .call .dispose | .call (.engine (.echo _)) | .call (.engine (.type _)) => false
  | _ => true

def Turn.reconciled : Turn → Turn
  | .call (.output chunk) => .call (.engine (.write chunk))
  | t => t

theorem Turn.isRegular_of_mem_answered {remote : Remote} {t t' : Turn} (ht : t.isRegular = true)
    (h : t' ∈ t.answered remote) : t'.isRegular = true := by
  have hinput {key : Text} (h : t' ∈ answeredInput remote key) : t'.isRegular = true := by
    rcases List.mem_cons.mp h with rfl | h
    · rfl
    · obtain ⟨_, _, rfl⟩ := List.mem_map.mp h
      rfl
  match t with
  | .call (.input _) => exact hinput h
  | .call (.type _) =>
    obtain ⟨_, _, h⟩ := List.mem_flatMap.mp h
    exact hinput h
  | .clock _ | .call (.output _) | .call (.setLocalEcho _) | .call .clear | .call .dispose
  | .call (.advance _) | .call .diagnostics | .call (.engine _) =>
    exact List.mem_singleton.mp h ▸ ht

section
variable (c : Classifier)

theorem Live.of_inactive {k k' : Console} (hk : k.Live) (hl : k'.channel.listeners = k.channel.listeners)
    (hd : k'.session.disposed = k.session.disposed)
    (hq : k'.session.active = false → k'.session.engine.pending = []) : k'.Live :=
  ⟨hl.trans hk.listening, hd.trans hk.disposed, hq⟩

theorem Live.output {k : Console} (hk : k.Live) (chunk : Text) : (k.output c chunk).1.Live := by
  rw [output_eq hk]
  refine hk.of_inactive rfl (k.session.receive_disposed c chunk) fun hoff => ?_
  have hoff : k.session.active = false := (k.session.receive_active c chunk).symm.trans hoff
  simp only [Session.receive_of_inactive hoff]
  exact hk.inactive hoff

theorem Live.input (remote : Remote) {k : Console} (hk : k.Live) (t : Text) : (k.input c remote t).1.Live := by
  apply input_keeps _ _ t hk
  · intro k chunk hk
    exact hk.output c chunk
  · intro k t hk
    exact hk.of_balanced rfl (k.session.react_balanced k.clock t)

theorem Live.turn {k : Console} (hk : k.Live) {t : Turn} (ht : t.isRegular = true) :
    (k.turn c .silent t).1.Live := by
  match t with
  | .call (.input t) => exact hk.input c .silent t
  | .call (.type t) => exact inputs_keeps (fun key hk => hk.input c .silent key) t.codePoints hk
  | .call (.output chunk) => exact hk.output c chunk
  | .call (.setLocalEcho true) => exact hk.of_inactive rfl rfl fun hoff => by cases hoff
  | .call (.setLocalEcho false) => exact hk.of_inactive rfl rfl fun _ => rfl
  | .call .clear => exact hk.of_inactive rfl rfl fun _ => rfl
  | .call (.advance _) | .call .diagnostics | .clock _ => exact hk.of_inactive rfl rfl hk.inactive
  | .call (.engine op) =>
    refine hk.of_inactive rfl rfl fun hoff => ?_
    -- a call that shows no key leaves no more waiting than there was
    have hcall := k.session.engine.call_pending_suffix c ⟨k.clock, op⟩
    have hahead : k.session.engine.ahead ⟨k.clock, op⟩ = [] := by
      cases op with
      | echo _ => cases ht
      | type _ => cases ht
      | _ => rfl
    rw [hk.inactive hoff, hahead] at hcall
    exact List.suffix_nil.mp hcall

theorem turn_reconciled {k : Console} (hk : k.Live) (t : Turn) :
    (k.turn c .silent t.reconciled).1 = (k.turn c .silent t).1 ∧
      (k.turn c .silent t.reconciled).2.Alike (k.turn c .silent t).2 := by
  match t with
  | .call (.output chunk) =>
    obtain ⟨hs, he⟩ := Session.receive_agrees hk.inactive c chunk
    simp only [turn, call, output_eq hk, ← hs]
    exact ⟨rfl, he⟩
  | .clock _ | .call (.input _) | .call (.type _) | .call (.setLocalEcho _) | .call .clear | .call .dispose
  | .call (.advance _) | .call .diagnostics | .call (.engine _) => exact ⟨rfl, .refl _⟩

theorem turns_reconciled : ∀ {k : Console} {run : List Turn}, k.Live → (∀ t ∈ run, t.isRegular = true) →
    (k.turns c .silent run).1.Live ∧
      (k.turns c .silent (run.map Turn.reconciled)).1 = (k.turns c .silent run).1 ∧
      (k.turns c .silent (run.map Turn.reconciled)).2.Alike (k.turns c .silent run).2
  | k, [], hk, _ => ⟨hk, rfl, .refl _⟩
  | k, t :: rest, hk, hrun => by
    obtain ⟨ht, hrest⟩ := List.forall_mem_cons.mp hrun
    obtain ⟨hturn, heffect⟩ := turn_reconciled c hk t
    obtain ⟨hlive, hturns, heffects⟩ := turns_reconciled (hk.turn c ht) hrest
    rw [List.map_cons, turns_cons, turns_cons, hturn]
    exact ⟨hlive, hturns, heffect.append heffects⟩

end

/-- **It makes no difference which way output goes.**  In every run with a session, with echo off nothing
waits; and if every chunk were handed to the engine, the session, its channel and the mismatches found
would be the same after every turn, and so would the text shown and the screen. -/
theorem direct_output_agrees (config : EchoConfig) (clock : Binary64) (c : Classifier) (remote : Remote)
    (run : List Turn) (hrun : ∀ t ∈ run, t.isRegular = true) : ∀ done, done <+: run →
      let r := (start config clock).turns c remote done
      let r' := (start config clock).turns c .silent ((done.flatMap (Turn.answered remote)).map Turn.reconciled)
      (r.1.session.active = false → r.1.session.engine.pending = []) ∧ r'.1 = r.1 ∧
        r'.2.shown = r.2.shown ∧ r'.2.log = r.2.log ∧
        ∀ c', renderScreen c' r'.2.shown = renderScreen c' r.2.shown := by
  intro done hd r r'
  have hanswered : ∀ t ∈ done.flatMap (Turn.answered remote), t.isRegular = true := by
    intro t ht
    obtain ⟨t', ht', h⟩ := List.mem_flatMap.mp ht
    exact Turn.isRegular_of_mem_answered (hrun t' (hd.subset ht')) h
  have hr : r = (start config clock).turns c .silent (done.flatMap (Turn.answered remote)) :=
    turns_eq_answered c remote done (start_wired config clock)
  obtain ⟨hlive, hsame, heffect⟩ := turns_reconciled c (start_live config clock) hanswered
  rw [← hr] at hlive hsame heffect
  exact ⟨hlive.inactive, hsame, heffect.shown, heffect.log, fun c' => by rw [heffect.shown]⟩

def switchingRun : List Turn :=
  [.call (.input [0x61]), .call (.output [0x61, 0x08, 0x21, 0x1B, 0x5B, 0x4B]), .call (.output [0x78, 0x08, 0x79]),
    .call (.type [0x64, 0x62]), .call (.setLocalEcho false), .call (.engine (.pause (.ofNat 5))),
    .call (.input [0x63]), .call (.output [0x63, 0x0D, 0x0A]), .call (.output []), .clock .nan,
    .call (.setLocalEcho true), .call (.input [0x65]), .call (.output [0x66, 0x07])]

theorem direct_output_agrees_switching :
    (∀ t ∈ switchingRun, t.isRegular = true) ∧
      ((start returnPauses 0).turns .standard .silent
          ((switchingRun.flatMap (Turn.answered remoteOfD)).map Turn.reconciled)).2.shown =
        ((start returnPauses 0).turns .standard remoteOfD switchingRun).2.shown :=
  have hrun : ∀ t ∈ switchingRun, t.isRegular = true := by decide
  ⟨hrun, (direct_output_agrees returnPauses 0 .standard remoteOfD switchingRun hrun _ List.prefix_rfl).2.2.1⟩

end Console

end Typeahead
