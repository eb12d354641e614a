import Typeahead.Proofs.DirectOutput

/-!
# What the remote side receives

Input is sent as it is, whatever is shown ahead of it.  So what a replay sends can be read off its script, and
neither the settings nor the steps that are no input make a difference (`replay_forwards_input`).  With echo
off the display gets the remote output and nothing else.
-/

namespace Typeahead

namespace SessionStep

def forwarded : SessionStep → List Text
  | .type data => data.codePoints
  | .input data => [data]
  | _ => []

def isInput : SessionStep → Bool
  | .type _ | .input _ => true
  | _ => false

def output? : SessionStep → Option Text
  | .output data => some data
  | _ => none

theorem forwarded_of_not_isInput {step : SessionStep} (h : step.isInput = false) : step.forwarded = [] := by
  cases step with
  | type _ => cases h
  | input _ => cases h
  | _ => rfl

theorem flatMap_forwarded_filter (steps : List SessionStep) :
    (steps.filter isInput).flatMap forwarded = steps.flatMap forwarded := by
  induction steps with
  | nil => rfl
  | cons step steps ih =>
    cases h : step.isInput with
    | true => rw [List.filter_cons_of_pos h, List.flatMap_cons, List.flatMap_cons, ih]
    | false =>
      rw [List.filter_cons_of_neg (by simp [h]), List.flatMap_cons, forwarded_of_not_isInput h, ih]
      rfl

end SessionStep

/-! ## Sending -/

theorem Channel.notify_sent {ι : Type} [DecidableEq ι] (listeners : List (Listener ι)) :
    ∀ c : Channel ι, (c.notify listeners).1.sent = c.sent := by
  induction listeners with
  | nil => intro c; rfl
  | cons l rest ih =>
    intro c
    unfold notify
    split
    · by_cases honce : l.once = true
      · simp only [honce, if_true, ih]
        rfl
      · simp only [honce, ih]
        rfl
    · exact ih c

namespace Console

theorem hear_channel (c : Classifier) (chunk : Text) : ∀ (parties : List Party) (k : Console),
    (k.hear c chunk parties).1.channel = k.channel
  | [], _ => rfl
  | .session :: rest, _ => hear_channel c chunk rest _
  | .observer _ :: rest, k => hear_channel c chunk rest k

theorem output_sent (k : Console) (c : Classifier) (chunk : Text) :
    (k.output c chunk).1.channel.sent = k.channel.sent := by
  unfold output
  rw [hear_channel]
  exact Channel.notify_sent _ _

/-! ## The turns of a script -/

def Turn.isScripted : Turn → Bool
  | .call (.input _) | .call (.output _) | .call (.advance _) | .call (.engine (.pause _)) | .call .clear => true
  | _ => false

def Turn.forwarded : Turn → List Text
  | .call (.input t) => [t]
  | _ => []

def Turn.output? : Turn → Option Text
  | .call (.output chunk) => some chunk
  | _ => none

theorem isScripted_of_mem_turns (steps : List SessionStep) :
    ∀ t ∈ steps.flatMap SessionStep.turns, t.isScripted = true := by
  intro t ht
  obtain ⟨step, -, ht⟩ := List.mem_flatMap.mp ht
  cases step with
  | type data =>
    obtain ⟨key, -, rfl⟩ := List.mem_map.mp ht
    rfl
  | other => cases ht
  | _ =>
    rw [List.mem_singleton.mp ht]
    rfl

theorem flatMap_forwarded_turns (steps : List SessionStep) :
    (steps.flatMap SessionStep.turns).flatMap Turn.forwarded = steps.flatMap SessionStep.forwarded := by
  rw [List.flatMap_assoc]
  congr 1
  funext step
  cases step with
  | type data => simp [SessionStep.turns, List.flatMap_map, Turn.forwarded, SessionStep.forwarded]
  | _ => rfl

theorem flatMap_output_turns (steps : List SessionStep) :
    (steps.flatMap SessionStep.turns).flatMap (·.output?.toList) = steps.filterMap SessionStep.output? := by
  rw [List.flatMap_assoc, List.filterMap_eq_flatMap_toList]
  congr 1
  funext step
  cases step with
  | type data => simp [SessionStep.turns, List.flatMap_map, Turn.output?, SessionStep.output?]
  | _ => rfl

section
variable (c : Classifier)

theorem turn_sent {k : Console} (hk : k.session.disposed = false) {t : Turn} (ht : t.isScripted = true) :
    (k.turn c .silent t).1.session.disposed = false ∧
      (k.turn c .silent t).1.channel.sent = k.channel.sent ++ t.forwarded := by
  match t, ht with
  | .call (.input t), _ =>
    simp only [turn, call, input_silent hk]
    exact ⟨(k.session.react_disposed k.clock t).trans hk, rfl⟩
  | .call (.output chunk), _ =>
    exact ⟨(hear_disposed c chunk _ _).trans hk, (k.output_sent c chunk).trans (List.append_nil _).symm⟩
  | .call (.advance _), _ | .call (.engine (.pause _)), _ | .call .clear, _ =>
    exact ⟨hk, (List.append_nil _).symm⟩

/-- What a script sends is the input of its steps, in order. -/
theorem script_sent (steps : List SessionStep) {k : Console} (hk : k.session.disposed = false) :
    (k.turns c .silent (steps.flatMap SessionStep.turns)).1.channel.sent =
      k.channel.sent ++ steps.flatMap SessionStep.forwarded := by
  rw [← flatMap_forwarded_turns]
  have hrun := along_of_forall c .silent k (isScripted_of_mem_turns steps)
  refine (turns_carry (P := fun k => k.session.disposed = false)
    (Q := fun k sent r => r.1.channel.sent = k.channel.sent ++ sent) ?_ ?_ ?_ hk hrun).2
  · intro k _
    exact (List.append_nil _).symm
  · intro k sent sent' r r' hfirst hlater
    rw [hlater, hfirst, List.append_assoc]
  · intro k t hk ht
    exact turn_sent c hk ht

/-! ## Echo off -/

structure Off (k : Console) : Prop where
  live : k.Live
  inactive : k.session.active = false
  mismatches : k.session.engine.mismatches = .empty

theorem start_off {config : EchoConfig} (h : config.localEcho = false) (clock : Binary64) :
    Off (start config clock) :=
  ⟨start_live config clock, h, rfl⟩

theorem Off.pending {k : Console} (hk : k.Off) : k.session.engine.pending = [] :=
  hk.live.inactive hk.inactive

theorem Off.of_session {k : Console} (hk : k.Off) {s : Session} {channel : Channel Party} {clock : Binary64}
    (hc : channel.listeners = k.channel.listeners) (hd : s.disposed = k.session.disposed)
    (ha : s.active = k.session.active) (hp : s.engine.pending = [])
    (hm : s.engine.mismatches = k.session.engine.mismatches) : Off ⟨s, channel, clock⟩ :=
  ⟨⟨hc.trans hk.live.listening, hd.trans hk.live.disposed, fun _ => hp⟩, ha.trans hk.inactive,
    hm.trans hk.mismatches⟩

theorem Off.turn {k : Console} (hk : k.Off) {t : Turn} (ht : t.isScripted = true) :
    (k.turn c .silent t).1.Off ∧ (k.turn c .silent t).2.writes = t.output?.toList := by
  match t, ht with
  | .call (.input t), _ =>
    have hreact : k.session.react k.clock t = (k.session, .none) := by
      unfold Session.react
      rw [if_neg (by simp [hk.inactive])]
    simp only [Console.turn, call, input_silent hk.live.disposed, hreact]
    exact ⟨hk.of_session rfl rfl rfl hk.pending rfl, rfl⟩
  | .call (.output chunk), _ =>
    simp only [Console.turn, call, output_eq hk.live, Session.receive_of_inactive hk.inactive]
    exact ⟨hk, rfl⟩
  | .call (.advance _), _ => exact ⟨hk.of_session rfl rfl rfl hk.pending rfl, rfl⟩
  | .call (.engine (.pause _)), _ | .call .clear, _ => exact ⟨hk.of_session rfl rfl rfl rfl rfl, rfl⟩

/-- With echo off a script shows the output of its steps, a fragment for each. -/
theorem Off.script (steps : List SessionStep) {k : Console} (hk : k.Off) :
    (k.turns c .silent (steps.flatMap SessionStep.turns)).1.Off ∧
      (k.turns c .silent (steps.flatMap SessionStep.turns)).2.writes = steps.filterMap SessionStep.output? := by
  rw [← flatMap_output_turns]
  have hrun := along_of_forall c .silent k (isScripted_of_mem_turns steps)
  refine turns_carry (Q := fun _ writes r => r.2.writes = writes) ?_ ?_ ?_ hk hrun
  · intro k _
    rfl
  · intro k writes writes' r r' hfirst hlater
    rw [Effect.append_writes, hfirst, hlater]
  · intro k t hk ht
    exact hk.turn c ht

end

end Console

/-! ## Replays -/

/-- **Input reaches the remote side as it is.**  A replay sends the characters of the keys typed and the bursts,
in order.  So what it sends depends neither on the settings nor on the steps that are no input.  With echo off
the display gets each chunk of output as it is and nothing else, nothing waits, and no mismatch is found. -/
theorem replay_forwards_input (steps : List SessionStep) (config : EchoConfig) :
    (Replay.run steps config).1.sent = steps.flatMap SessionStep.forwarded ∧
      (∀ steps' config', steps'.filter SessionStep.isInput = steps.filter SessionStep.isInput →
        (Replay.run steps' config').1.sent = (Replay.run steps config).1.sent) ∧
      (config.localEcho = false →
        (Replay.run steps config).1.writes = steps.filterMap SessionStep.output? ∧
        (Replay.run steps config).1.pending = [] ∧ (Replay.run steps config).1.diagnostics = []) := by
  have hsent (steps config) : (Replay.run steps config).1.sent = steps.flatMap SessionStep.forwarded := by
    rw [Replay.run_eq]
    exact Console.script_sent .standard steps rfl
  refine ⟨hsent steps config, fun steps' config' h => ?_, fun hoff => ?_⟩
  · rw [hsent, hsent, ← SessionStep.flatMap_forwarded_filter, h, SessionStep.flatMap_forwarded_filter]
  · obtain ⟨hend, hwrites⟩ := (Console.start_off hoff 0).script .standard steps
    rw [Replay.run_eq]
    refine ⟨hwrites, hend.pending, ?_⟩
    simp only [Engine.diagnostics, hend.mismatches]
    rfl

def disturbedScript : List SessionStep :=
  [.type [0x61, 0xD83D, 0xDE00], .output [0x62], .pause (.infinity false), .input [0x0D], .wait (.ofNat 5), .clear,
    .output []]

theorem replay_forwards_input_disturbed :
    [SessionStep.type [0x61, 0xD83D, 0xDE00], .input [0x0D]].filter SessionStep.isInput =
        disturbedScript.filter SessionStep.isInput ∧
      (Replay.run disturbedScript ⟨true, .ofNat 500, [[0x61]]⟩).1.sent = [[0x61], [0xD83D, 0xDE00], [0x0D]] ∧
      (Replay.run [.type [0x61, 0xD83D, 0xDE00], .input [0x0D]] .default).1.sent =
        (Replay.run disturbedScript ⟨true, .ofNat 500, [[0x61]]⟩).1.sent ∧
      (Replay.run disturbedScript ⟨false, .ofNat 500, [[0x61]]⟩).1.writes = [[0x62], []] :=
  ⟨rfl, (replay_forwards_input disturbedScript _).1,
    (replay_forwards_input disturbedScript _).2.1 _ _ rfl,
    ((replay_forwards_input disturbedScript ⟨false, .ofNat 500, [[0x61]]⟩).2.2 rfl).1⟩

end Typeahead
