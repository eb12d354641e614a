import Typeahead.Replay

/-!
# Runs of a console

A run is a list of turns, each a call or the clock moving to a reading of any kind.  `Console.Along`
says of a run that each turn meets a condition in the state in which it is taken.  What every turn keeps, and what
it comes to, is carried along a run once for all (`Console.turns_carry`).  Answers that the remote side gives at once
are turns right after the input (`Console.turns_eq_answered`), and a script is a run (`Console.playAll_eq_turns`).
-/

namespace Typeahead

namespace Console

inductive Turn where
  | call (op : ConsoleCall)
  | clock (now : Binary64)
deriving Repr, DecidableEq

def turn (k : Console) (c : Classifier) (remote : Remote) : Turn → Console × Effect
  | .call op => (k.call c remote op).2
  | .clock now => ({ k with clock := now }, .none)

def turns (k : Console) (c : Classifier) (remote : Remote) : List Turn → Console × Effect
  | [] => (k, .none)
  | t :: rest =>
    let (k, shown) := k.turn c remote t
    let (k, later) := k.turns c remote rest
    (k, shown ++ later)

/-- Each turn meets the condition in the state in which it is taken. -/
def Along (P : Console → Turn → Prop) (k : Console) (c : Classifier) (remote : Remote) : List Turn → Prop
  | [] => True
  | t :: rest => P k t ∧ Along P (k.turn c remote t).1 c remote rest

instance Along.decidable {P : Console → Turn → Prop} [∀ k t, Decidable (P k t)] (c : Classifier)
    (remote : Remote) : (k : Console) → (run : List Turn) → Decidable (k.Along P c remote run)
  | _, [] => .isTrue trivial
  | k, t :: rest =>
    have : Decidable ((k.turn c remote t).1.Along P c remote rest) := Along.decidable c remote _ rest
    inferInstanceAs (Decidable (P k t ∧ _))

section
variable (c : Classifier) (remote : Remote)

theorem turns_cons (k : Console) (t : Turn) (rest : List Turn) : k.turns c remote (t :: rest) =
    (((k.turn c remote t).1.turns c remote rest).1,
      (k.turn c remote t).2 ++ ((k.turn c remote t).1.turns c remote rest).2) := rfl

theorem turns_append (k : Console) (first rest : List Turn) : k.turns c remote (first ++ rest) =
    (((k.turns c remote first).1.turns c remote rest).1,
      (k.turns c remote first).2 ++ ((k.turns c remote first).1.turns c remote rest).2) := by
  induction first generalizing k with
  | nil => simp [turns]
  | cons t first ih => simp only [List.cons_append, turns_cons, ih, Effect.append_assoc]

theorem Along.of_prefix {P : Console → Turn → Prop} : ∀ {k : Console} {done run : List Turn},
    k.Along P c remote run → done <+: run → k.Along P c remote done
  | _, [], _, _, _ => trivial
  | _, _ :: _, _, h, ⟨rest, hr⟩ => by
    subst hr
    exact ⟨h.1, Along.of_prefix h.2 ⟨rest, rfl⟩⟩

theorem turns_snoc (k : Console) (done : List Turn) (t : Turn) :
    (k.turns c remote (done ++ [t])).1 = ((k.turns c remote done).1.turn c remote t).1 := by
  rw [turns_append]
  rfl

theorem inputs_eq_turns (k : Console) (keys : List Text) :
    k.inputs c remote keys = k.turns c remote (keys.map fun key => .call (.input key)) := by
  induction keys generalizing k with
  | nil => rfl
  | cons key keys ih => simp only [inputs, List.map_cons, turns_cons, ih, turn, call]

theorem outputs_eq_turns (k : Console) (chunks : List Text) :
    k.outputs c chunks = k.turns c remote (chunks.map fun chunk => .call (.output chunk)) := by
  induction chunks generalizing k with
  | nil => rfl
  | cons chunk chunks ih => simp only [outputs, List.map_cons, turns_cons, ih, turn, call]

end

/-! ## What runs keep -/

theorem along_of_forall {p : Turn → Prop} (c : Classifier) (remote : Remote) : ∀ {run : List Turn} (k : Console),
    (∀ t ∈ run, p t) → k.Along (fun _ => p) c remote run
  | [], _, _ => trivial
  | _ :: _, _, h =>
    have ⟨ht, hrest⟩ := List.forall_mem_cons.mp h
    ⟨ht, along_of_forall c remote _ hrest⟩

section
variable {β : Type} {c : Classifier} {remote : Remote} {A : Console → Turn → Prop} {P : Console → Prop}
  {Q : Console → List β → Console × Effect → Prop} {g : Turn → List β}

/-- What every turn keeps and comes to, a run keeps and comes to.  Beginning at `k`, an operation with the answer
`r` comes to what `Q k x r` tells. -/
theorem turns_carry (hnil : ∀ {k}, P k → Q k [] (k, .none))
    (happend : ∀ {k x x' r r'}, Q k x r → Q r.1 x' r' → Q k (x ++ x') (r'.1, r.2 ++ r'.2))
    (hturn : ∀ {k t}, P k → A k t → P (k.turn c remote t).1 ∧ Q k (g t) (k.turn c remote t)) :
    ∀ {run : List Turn} {k : Console}, P k → k.Along A c remote run →
      P (k.turns c remote run).1 ∧ Q k (run.flatMap g) (k.turns c remote run)
  | [], _, hk, _ => ⟨hk, hnil hk⟩
  | _ :: _, _, hk, ⟨ht, hrest⟩ => by
    obtain ⟨hk', hfirst⟩ := hturn hk ht
    obtain ⟨hk'', hlater⟩ := turns_carry hnil happend hturn hk' hrest
    exact ⟨hk'', happend hfirst hlater⟩

theorem inputs_carry {g : Text → List β} {keys : List Text} (hnil : ∀ {k}, P k → Q k [] (k, .none))
    (happend : ∀ {k x x' r r'}, Q k x r → Q r.1 x' r' → Q k (x ++ x') (r'.1, r.2 ++ r'.2))
    (hinput : ∀ key ∈ keys, ∀ {k}, P k → P (k.input c remote key).1 ∧ Q k (g key) (k.input c remote key))
    {k : Console} (hk : P k) : P (k.inputs c remote keys).1 ∧ Q k (keys.flatMap g) (k.inputs c remote keys) := by
  let shown : Turn → List β
    | .call (.input key) => g key
    | _ => []
  let run : List Turn := keys.map fun key => .call (.input key)
  have hshown : run.flatMap shown = keys.flatMap g := List.flatMap_map _ _ _
  rw [inputs_eq_turns, ← hshown]
  have hrun : k.Along (fun _ t => t ∈ run) c remote run := along_of_forall c remote k fun _ ht => ht
  refine turns_carry hnil happend ?_ hk hrun
  intro k t hk ht
  obtain ⟨key, hkey, rfl⟩ := List.mem_map.mp ht
  exact hinput key hkey hk

theorem turns_keeps {run : List Turn} {k : Console}
    (hturn : ∀ t ∈ run, ∀ {k : Console}, P k → P (k.turn c remote t).1) (hk : P k) : P (k.turns c remote run).1 := by
  have hrun : k.Along (fun _ t => t ∈ run) c remote run := along_of_forall c remote k fun _ ht => ht
  have hcarry := turns_carry (β := Unit) (Q := fun _ _ _ => True) (g := fun _ => []) (P := P) (fun _ => trivial)
    (fun _ _ => trivial) (fun hk ht => ⟨hturn _ ht hk, trivial⟩) hk hrun
  exact hcarry.1

theorem outputs_keeps (houtput : ∀ {k : Console} (chunk : Text), P k → P (k.output c chunk).1) {k : Console}
    (chunks : List Text) (hk : P k) : P (k.outputs c chunks).1 := by
  rw [outputs_eq_turns c .silent]
  refine turns_keeps ?_ hk
  intro t ht k hk
  obtain ⟨chunk, -, rfl⟩ := List.mem_map.mp ht
  exact houtput chunk hk

/-- What input does before the remote side answers it, and what output does, is kept by input with its answers. -/
theorem input_keeps (houtput : ∀ {k : Console} (chunk : Text), P k → P (k.output c chunk).1)
    (hreact : ∀ {k : Console} (t : Text), P k →
      P { k with session := (k.session.react k.clock t).1, channel := k.channel.send t })
    {k : Console} (t : Text) (hk : P k) : P (k.input c remote t).1 := by
  unfold input
  split
  · exact hk
  · exact outputs_keeps houtput _ (hreact t hk)

theorem inputs_keeps (hinput : ∀ {k : Console} (t : Text), P k → P (k.input c remote t).1) {k : Console}
    (keys : List Text) (hk : P k) : P (k.inputs c remote keys).1 := by
  rw [inputs_eq_turns]
  refine turns_keeps ?_ hk
  intro t ht k hk
  obtain ⟨key, -, rfl⟩ := List.mem_map.mp ht
  exact hinput key hk

end

end Console

/-! ## Sessions that may end -/

theorem Session.react_disposed (s : Session) (now : Binary64) (t : Text) :
    (s.react now t).1.disposed = s.disposed := by
  unfold react
  split
  · split
    · split <;> rfl
    · rfl
  · rfl

theorem Session.receive_disposed (s : Session) (c : Classifier) (chunk : Text) :
    (s.receive c chunk).1.disposed = s.disposed := by
  unfold receive
  split <;> rfl

namespace Console

theorem hear_disposed (c : Classifier) (chunk : Text) : ∀ (parties : List Party) (k : Console),
    (k.hear c chunk parties).1.session.disposed = k.session.disposed
  | [], _ => rfl
  | .session :: rest, k => (hear_disposed c chunk rest _).trans (k.session.receive_disposed c chunk)
  | .observer _ :: rest, k => hear_disposed c chunk rest k

def Wired (k : Console) : Prop := k.channel.listeners = if k.session.disposed then [] else [ear]

theorem start_wired (config : EchoConfig) (clock : Binary64) : Wired (start config clock) := rfl

theorem Wired.of_eq {k k' : Console} (hk : k.Wired) (hl : k'.channel.listeners = k.channel.listeners)
    (hd : k'.session.disposed = k.session.disposed) : k'.Wired := by
  rw [Wired, hl, hd]
  exact hk

theorem output_eq_of_wired {k : Console} (hk : k.Wired) (c : Classifier) (chunk : Text) :
    k.output c chunk = if k.session.disposed then (k, .none)
      else ({ k with session := (k.session.receive c chunk).1 }, (k.session.receive c chunk).2) := by
  unfold Wired at hk
  split
  · rename_i hd
    have hemit : k.channel.emit = (k.channel, []) := by
      simp [Channel.emit, Channel.notify, hk, hd]
    simp [output, hemit, hear]
  · rename_i hd
    have hemit : k.channel.emit = (k.channel, [.session]) := by
      simp [Channel.emit, Channel.notify, hk, hd, ear]
    simp [output, hemit, hear]

section
variable (c : Classifier) (remote : Remote)

theorem Wired.output {k : Console} (hk : k.Wired) (chunk : Text) : (k.output c chunk).1.Wired := by
  rw [output_eq_of_wired hk]
  split
  · exact hk
  · exact hk.of_eq rfl (k.session.receive_disposed c chunk)

theorem Wired.input {k : Console} (hk : k.Wired) (t : Text) : (k.input c remote t).1.Wired := by
  apply input_keeps _ _ t hk
  · intro k chunk hk
    exact hk.output c chunk
  · intro k t hk
    exact hk.of_eq rfl (k.session.react_disposed k.clock t)

theorem Wired.dispose {k : Console} (hk : k.Wired) : k.dispose.Wired := by
  unfold Console.dispose
  split
  · exact hk
  · rename_i hd
    rw [Wired] at hk
    simp [Wired, Channel.unsubscribe, hk, hd]

theorem Wired.turn {k : Console} (hk : k.Wired) (t : Turn) : (k.turn c remote t).1.Wired := by
  match t with
  | .call (.input t) => exact hk.input c remote t
  | .call (.type t) => exact inputs_keeps (fun key hk => hk.input c remote key) t.codePoints hk
  | .call (.output chunk) => exact hk.output c chunk
  | .call .dispose => exact hk.dispose
  | .clock _ | .call (.setLocalEcho _) | .call .clear | .call (.advance _) | .call .diagnostics
  | .call (.engine _) => exact hk.of_eq rfl rfl

theorem Wired.turns {k : Console} (hk : k.Wired) (run : List Turn) : (k.turns c remote run).1.Wired :=
  turns_keeps (fun t _ _ hk => hk.turn c remote t) hk

end

theorem input_silent {k : Console} (hd : k.session.disposed = false) (c : Classifier) (t : Text) :
    k.input c .silent t = ({ k with session := (k.session.react k.clock t).1, channel := k.channel.send t },
      (k.session.react k.clock t).2) := by
  simp [Console.input, hd, Remote.silent, Console.outputs]

/-! ## Answers that come at once -/

def answeredInput (remote : Remote) (t : Text) : List Turn :=
  .call (.input t) :: (remote t).map fun chunk => .call (.output chunk)

/-- A turn, and each answer of the remote side as a turn of its own. -/
def Turn.answered (remote : Remote) : Turn → List Turn
  | .call (.input t) => answeredInput remote t
  | .call (.type t) => t.codePoints.flatMap (answeredInput remote)
  | t => [t]

section
variable (c : Classifier) (remote : Remote)

theorem outputs_of_disposed {k : Console} (hk : k.Wired) (hd : k.session.disposed = true) (chunks : List Text) :
    k.outputs c chunks = (k, .none) := by
  induction chunks with
  | nil => rfl
  | cons chunk rest ih => simp [outputs, output_eq_of_wired hk, hd, ih]

theorem input_eq_answered {k : Console} (hk : k.Wired) (t : Text) :
    k.input c remote t = k.turns c .silent (answeredInput remote t) := by
  rw [answeredInput, turns_cons, ← outputs_eq_turns]
  cases hd : k.session.disposed with
  | false => simp [turn, call, input, hd, Remote.silent, outputs]
  | true => simp [turn, call, input, hd, outputs_of_disposed c hk hd]

theorem inputs_eq_answered : ∀ {k : Console} (keys : List Text), k.Wired →
    k.inputs c remote keys = k.turns c .silent (keys.flatMap (answeredInput remote))
  | _, [], _ => rfl
  | k, key :: keys, hk => by
    simp only [inputs, List.flatMap_cons, turns_append, ← input_eq_answered c remote hk,
      inputs_eq_answered keys (hk.input c remote key)]

theorem turn_eq_answered {k : Console} (hk : k.Wired) (t : Turn) :
    k.turn c remote t = k.turns c .silent (t.answered remote) := by
  match t with
  | .call (.input t) => exact input_eq_answered c remote hk t
  | .call (.type t) => exact inputs_eq_answered c remote t.codePoints hk
  | .clock _ | .call (.output _) | .call (.setLocalEcho _) | .call .clear | .call .dispose
  | .call (.advance _) | .call .diagnostics | .call (.engine _) =>
    simp [Turn.answered, turns, turn, call]

/-- A remote side that answers at once is one that stays silent and sends the answers right after. -/
theorem turns_eq_answered : ∀ {k : Console} (run : List Turn), k.Wired →
    k.turns c remote run = k.turns c .silent (run.flatMap (Turn.answered remote))
  | _, [], _ => rfl
  | k, t :: rest, hk => by
    rw [turns_cons, List.flatMap_cons, turns_append, ← turn_eq_answered c remote hk,
      turns_eq_answered rest (hk.turn c remote t)]

end

end Console

/-! ## Scripts -/

open Console (Turn)

def SessionStep.turns : SessionStep → List Turn
  | .type data => data.codePoints.map fun key => .call (.input key)
  | .input data => [.call (.input data)]
  | .output data => [.call (.output data)]
  | .wait millis => [.call (.advance millis)]
  | .pause millis => [.call (.engine (.pause millis))]
  | .clear => [.call .clear]
  | .other => []

namespace Console

theorem play_eq_turns (k : Console) (step : SessionStep) :
    k.play step = k.turns .standard .silent step.turns := by
  cases step with
  | type data => exact inputs_eq_turns _ _ k _
  | other => rfl
  | _ => simp [play, SessionStep.turns, turns, turn, call]

/-- Playing a script is taking the turns of its steps. -/
theorem playAll_eq_turns (k : Console) (steps : List SessionStep) :
    k.playAll steps = k.turns .standard .silent (steps.flatMap SessionStep.turns) := by
  induction steps generalizing k with
  | nil => rfl
  | cons step steps ih =>
    simp only [playAll, List.flatMap_cons, turns_append, ih, play_eq_turns]

end Console

theorem Replay.run_eq (steps : List SessionStep) (config : EchoConfig) :
    (Replay.run steps config).1 =
      let r := (Console.start config 0).turns .standard .silent (steps.flatMap SessionStep.turns)
      ⟨r.2.writes, renderScreen .standard r.2.shown, r.1.session.engine.diagnostics,
        r.1.session.engine.pending, r.1.channel.sent⟩ := by
  simp only [Replay.run, Console.playAll_eq_turns, Console.dispose]
  split <;> rfl

end Typeahead
