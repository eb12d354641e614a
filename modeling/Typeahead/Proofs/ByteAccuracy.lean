import Mathlib.Data.List.Infix
import Typeahead.Proofs.Reconciliation
import Typeahead.Proofs.Run
import Typeahead.Proofs.Typing

/-!
# Byte accuracy

Text is neither lost nor shown twice.  Each turn of a run keeps a balance (`Session.Balanced`): what
waited before it and what it shows are what it received and what waits after it.  So over a run what
was shown is what was received and then what still waits, as long as output that meets waiting keys
agrees with them.
-/

namespace Typeahead

/-- Text that agrees with the keys as far as both go is no mismatch, and the balance is even. -/
theorem Account.literal_balance {q t : Text} (h : t <+: q ∨ q <+: t) :
    (literal q t).mismatches = [] ∧ q ++ (literal q t).shown = t ++ (literal q t).queue := by
  rw [literal_eq]
  rcases h with ⟨rest, rfl⟩ | ⟨rest, rfl⟩
  · simp [List.drop_of_length_le]
  · simp [List.take_of_length_le, List.drop_of_length_le]

namespace Session

/-- What an operation on a session answered with keeps the balance: what waited before and what is
shown now are what was received and what waits now.  No mismatch is reported. -/
structure Balanced (s : Session) (received : Text) (r : Session × Effect) : Prop where
  text : s.engine.pending ++ r.2.shown = received ++ r.1.engine.pending
  mismatches : r.1.engine.mismatches = s.engine.mismatches
  log : r.2.log = []
  active : r.1.active = s.active
  disposed : r.1.disposed = s.disposed
  idle : s.active = false → r.1.engine = s.engine

theorem Balanced.refl (s : Session) : s.Balanced [] (s, .none) :=
  ⟨by simp, rfl, rfl, rfl, rfl, fun _ => rfl⟩

theorem Balanced.append {s : Session} {received received' : Text} {r r' : Session × Effect}
    (h : s.Balanced received r) (h' : r.1.Balanced received' r') :
    s.Balanced (received ++ received') (r'.1, r.2 ++ r'.2) where
  text := by
    rw [Effect.shown_append, ← List.append_assoc, h.text, List.append_assoc, h'.text, List.append_assoc]
  mismatches := h'.mismatches.trans h.mismatches
  log := by simp [h.log, h'.log]
  active := h'.active.trans h.active
  disposed := h'.disposed.trans h.disposed
  idle ha := (h'.idle (h.active.trans ha)).trans (h.idle ha)

theorem react_balanced (s : Session) (now : Binary64) (input : Text) : s.Balanced [] (s.react now input) := by
  unfold react
  split
  · rename_i ha
    have hidle {e : Engine Binary64} (hoff : s.active = false) : e = s.engine := by
      rw [ha] at hoff; cases hoff
    split
    · split
      · rename_i hq
        have hq : s.engine.pending = [] := List.isEmpty_iff.mp hq
        exact ⟨by rw [hq]; rfl, rfl, rfl, rfl, rfl, hidle⟩
      · exact ⟨by simp, rfl, rfl, rfl, rfl, fun _ => rfl⟩
    · exact ⟨by simp, by simp [Engine.echo_eq], by simp [Engine.echo_eq], rfl, rfl, hidle⟩
  · exact ⟨by simp, rfl, rfl, rfl, rfl, fun _ => rfl⟩

/-- Chunks that may arrive: one that meets waiting keys holds no control span and agrees with them as
far as both go. -/
def Awaits (s : Session) (c : Classifier) (chunk : Text) : Prop :=
  s.engine.pending ≠ [] →
    c.spans chunk = [] ∧ (chunk <+: s.engine.pending ∨ s.engine.pending <+: chunk)

instance (s : Session) (c : Classifier) (chunk : Text) : Decidable (s.Awaits c chunk) :=
  inferInstanceAs (Decidable (_ ≠ [] → _ ∧ (_ ∨ _)))

theorem receive_balanced {s : Session} (hs : s.active = false → s.engine.pending = []) {c : Classifier}
    {chunk : Text} (h : s.Awaits c chunk) : s.Balanced chunk (s.receive c chunk) := by
  unfold receive
  by_cases hq : s.engine.pending = []
  · have hempty : s.engine.queue.isEmpty = true := List.isEmpty_iff.mpr hq
    rw [if_pos (by simp [hempty])]
    exact ⟨by simp [hq], rfl, rfl, rfl, rfl, fun _ => rfl⟩
  · have hactive : s.active = true := by
      cases ha : s.active with
      | true => rfl
      | false => exact absurd (hs ha) hq
    have hempty : s.engine.queue.isEmpty = false := List.isEmpty_eq_false_iff.mpr hq
    rw [if_neg (by simp [hactive, hempty])]
    obtain ⟨hspans, hagree⟩ := h hq
    have hw := s.engine.write_settles c chunk
    rw [Classifier.segments_of_spans_nil hspans, Account.walk, Account.walk, Account.andThen_rest,
      Account.step] at hw
    obtain ⟨hm, hb⟩ := Account.literal_balance hagree
    exact ⟨by simp only [hw.shown, hw.pending]; exact hb, by simp [hw.engine, hm], by simp [hw.log, hm], rfl, rfl,
      fun hoff => absurd (hs hoff) hq⟩

end Session

namespace Console

structure Live (k : Console) : Prop where
  listening : k.channel.listeners = [ear]
  disposed : k.session.disposed = false
  inactive : k.session.active = false → k.session.engine.pending = []

theorem start_live (config : EchoConfig) (clock : Binary64) : Live (start config clock) :=
  ⟨rfl, rfl, fun _ => rfl⟩

theorem Live.of_balanced {k k' : Console} (hk : k.Live) {received : Text} {shown : Effect}
    (hc : k'.channel.listeners = k.channel.listeners) (h : k.session.Balanced received (k'.session, shown)) :
    k'.Live where
  listening := hc.trans hk.listening
  disposed := h.disposed.trans hk.disposed
  inactive ha := by
    have hoff : k.session.active = false := h.active.symm.trans ha
    have he : k'.session.engine = k.session.engine := h.idle hoff
    rw [he]
    exact hk.inactive hoff

theorem Live.wired {k : Console} (hk : k.Live) : k.Wired := by
  rw [Wired, hk.disposed]
  exact hk.listening

theorem output_eq {k : Console} (hk : k.Live) (c : Classifier) (chunk : Text) : k.output c chunk =
    ({ k with session := (k.session.receive c chunk).1 }, (k.session.receive c chunk).2) := by
  rw [output_eq_of_wired hk.wired, hk.disposed]
  rfl

def Turn.received : Turn → Text
  | .call (.output chunk) => chunk
  | _ => []

/-- Input, a move of the clock, or a chunk that may arrive. -/
def Awaits (c : Classifier) (k : Console) : Turn → Prop
  | .clock _ => True
  | .call (.input _) => True
  | .call (.advance _) => True
  | .call (.output chunk) => k.session.Awaits c chunk
  | .call _ => False

instance (c : Classifier) (k : Console) : (t : Turn) → Decidable (Awaits c k t)
  | .clock _ => .isTrue trivial
  | .call (.input _) => .isTrue trivial
  | .call (.advance _) => .isTrue trivial
  | .call (.output chunk) => inferInstanceAs (Decidable (k.session.Awaits c chunk))
  | .call (.type _) => .isFalse id
  | .call (.setLocalEcho _) => .isFalse id
  | .call .clear => .isFalse id
  | .call .dispose => .isFalse id
  | .call .diagnostics => .isFalse id
  | .call (.engine _) => .isFalse id

section
variable {c : Classifier}

theorem turn_balanced {k : Console} (hk : k.Live) {t : Turn} (h : Awaits c k t) :
    (k.turn c .silent t).1.Live ∧
      k.session.Balanced t.received ((k.turn c .silent t).1.session, (k.turn c .silent t).2) := by
  match t, h with
  | .clock now, _ => exact ⟨⟨hk.listening, hk.disposed, hk.inactive⟩, .refl _⟩
  | .call (.advance millis), _ => exact ⟨⟨hk.listening, hk.disposed, hk.inactive⟩, .refl _⟩
  | .call (.input t), _ =>
    have hb := k.session.react_balanced k.clock t
    simp only [turn, call, input_silent hk.disposed]
    exact ⟨hk.of_balanced rfl hb, hb⟩
  | .call (.output chunk), h =>
    have hb := Session.receive_balanced hk.inactive h
    simp only [turn, call, output_eq hk]
    exact ⟨hk.of_balanced rfl hb, hb⟩

theorem turns_balanced {k : Console} {run : List Turn} (hk : k.Live) (h : k.Along (Awaits c) c .silent run) :
    (k.turns c .silent run).1.Live ∧
      k.session.Balanced (run.flatMap Turn.received)
        ((k.turns c .silent run).1.session, (k.turns c .silent run).2) := by
  apply turns_carry (Q := fun k received r => k.session.Balanced received (r.1.session, r.2)) _ _ _ hk h
  · intro k _
    exact .refl k.session
  · intro k received received' r r' hfirst hlater
    exact hfirst.append hlater
  · intro k t hk ht
    exact turn_balanced hk ht

/-- With echo off a chunk may always arrive, so a run that may be taken at all may be taken there. -/
theorem along_of_inactive : ∀ {k k' : Console} {run : List Turn}, k'.Live → k'.session.active = false →
    k.Along (Awaits c) c .silent run → k'.Along (Awaits c) c .silent run
  | _, _, [], _, _, _ => trivial
  | k, k', t :: rest, hk', hoff, ⟨ht, hrest⟩ => by
    have ht' : Awaits c k' t := by
      match t, ht with
      | .clock _, _ => trivial
      | .call (.advance _), _ => trivial
      | .call (.input _), _ => trivial
      | .call (.output _), _ => exact fun hq => absurd (hk'.inactive hoff) hq
    obtain ⟨hlive, hb⟩ := turn_balanced hk' ht'
    exact ⟨ht', along_of_inactive hlive (hb.active.trans hoff) hrest⟩

theorem start_turns_shown {config : EchoConfig} {clock : Binary64} {run : List Turn}
    (h : (start config clock).Along (Awaits c) c .silent run) :
    ((start config clock).turns c .silent run).2.shown = run.flatMap Turn.received ++
      ((start config clock).turns c .silent run).1.session.engine.pending := by
  have hb := (turns_balanced (start_live config clock) h).2.text
  rwa [show (start config clock).session.engine.pending = [] from rfl, List.nil_append] at hb

theorem start_turns_shown_inactive {config : EchoConfig} {clock : Binary64} {run : List Turn}
    (h : (start config clock).Along (Awaits c) c .silent run) :
    ((start { config with localEcho := false } clock).turns c .silent run).2.shown =
      run.flatMap Turn.received := by
  have hk := start_live { config with localEcho := false } clock
  have hoff := along_of_inactive hk rfl h
  obtain ⟨hlive, hb⟩ := turns_balanced hk hoff
  rw [start_turns_shown hoff, hlive.inactive (hb.active.trans rfl), List.append_nil]

end

/-- **Text is neither lost nor shown twice.**  If output that meets waiting keys agrees with them, then
after every turn what was shown is what was received and then what still waits, and no mismatch was
found; so with nothing waiting the run shows what it shows with echo off.  Output received may answer
input at once.  A script of this kind that ends with nothing waiting has the same display with echo on
and off. -/
theorem shown_is_received_and_pending (config : EchoConfig) :
    (∀ clock c remote run,
      (start config clock).Along (Awaits c) c .silent (run.flatMap (Turn.answered remote)) →
      ∀ done, done <+: run →
        let r := (start config clock).turns c remote done
        r.2.shown = (done.flatMap (Turn.answered remote)).flatMap Turn.received ++ r.1.session.engine.pending ∧
        r.1.session.engine.mismatches = .empty ∧ r.2.log = [] ∧
        (r.1.session.engine.pending = [] →
          r.2.shown = ((start { config with localEcho := false } clock).turns c remote done).2.shown)) ∧
    ∀ steps, (start { config with localEcho := true } 0).Along (Awaits .standard) .standard .silent
        (steps.flatMap SessionStep.turns) →
      (Replay.run steps { config with localEcho := true }).1.pending = [] →
      (Replay.run steps { config with localEcho := true }).1.display =
        (Replay.run steps { config with localEcho := false }).1.display := by
  constructor
  · intro clock c remote run h done hd r
    have h := h.of_prefix c .silent (hd.flatMap (Turn.answered remote))
    have hb := (turns_balanced (start_live config clock) h).2
    have hr : r = (start config clock).turns c .silent (done.flatMap (Turn.answered remote)) :=
      turns_eq_answered c remote done (start_wired config clock)
    rw [hr]
    refine ⟨start_turns_shown h, hb.mismatches, hb.log, fun hq => ?_⟩
    rw [turns_eq_answered c remote done (start_wired _ clock), start_turns_shown_inactive h,
      start_turns_shown h, hq, List.append_nil]
  · intro steps h hq
    simp only [Replay.run_eq] at hq ⊢
    rw [start_turns_shown_inactive h, start_turns_shown h, hq, List.append_nil]

def returnPauses : EchoConfig := ⟨true, .ofNat 500, [[0x0D]]⟩

def remoteOfD : Remote := fun input => if input = [0x64] then [input] else []

def pausingRun : List Turn :=
  [.call (.input [0x61]), .call (.input [0x62]), .call (.output [0x61]), .call (.input [0x0D]),
    .call (.output [0x62, 0x21]), .call (.input [0x0D]), .call (.input [0x63]), .call (.output [0x63]),
    .clock .nan, .call (.type [0x64, 0x65])]

def overtakingScript : List SessionStep :=
  [.type [0x61, 0x62], .output [0x61], .input [0x0D], .output [0x62, 0x21], .wait (.ofNat 7),
    .output [0x0A, 0x07]]

theorem shown_is_received_and_pending_around_pause :
    ((start returnPauses 0).Along (Awaits .standard) .standard .silent
        (pausingRun.flatMap (Turn.answered remoteOfD)) ∧
      ((start returnPauses 0).turns .standard remoteOfD pausingRun).2.shown =
        (pausingRun.flatMap (Turn.answered remoteOfD)).flatMap Turn.received ++ [0x65]) ∧
    (start returnPauses 0).Along (Awaits .standard) .standard .silent (overtakingScript.flatMap SessionStep.turns) ∧
      (Replay.run overtakingScript returnPauses).1.pending = [] ∧
      (Replay.run overtakingScript returnPauses).1.display =
        (Replay.run overtakingScript { returnPauses with localEcho := false }).1.display := by
  have hrun : (start returnPauses 0).Along (Awaits .standard) .standard .silent
      (pausingRun.flatMap (Turn.answered remoteOfD)) := by decide +kernel
  have hscript : (start returnPauses 0).Along (Awaits .standard) .standard .silent
      (overtakingScript.flatMap SessionStep.turns) := by decide +kernel
  have hwaits : ((start returnPauses 0).turns .standard remoteOfD pausingRun).1.session.engine.pending =
      [0x65] := by decide +kernel
  have hpending : (Replay.run overtakingScript returnPauses).1.pending = [] := by decide +kernel
  obtain ⟨hruns, hscripts⟩ := shown_is_received_and_pending returnPauses
  have hshown := (hruns 0 .standard remoteOfD pausingRun hrun pausingRun List.prefix_rfl).1
  exact ⟨⟨hrun, by rw [hshown, hwaits]⟩, hscript, hpending,
    hscripts overtakingScript hscript hpending⟩

end Console

end Typeahead
