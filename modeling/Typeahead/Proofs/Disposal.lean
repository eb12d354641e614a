import Typeahead.Proofs.Delivery
import Typeahead.Proofs.Forwarding

/-!
# Sessions that have ended

A session may share its channel with others, who come and go as they like.  When it ends it leaves the channel
(`Console.Shared`), so no output reaches it, and it takes no input.  All that can still change is whether it
has echo switched on, and that the keys that wait are forgotten.  The others are notified as if it had never
been there (`Console.dispose_silences`).
-/

namespace Typeahead

namespace Console

/-! ## Sharing a channel -/

def observer (name : Text) (once : Bool) : Listener Party := ⟨.observer name, once⟩

inductive Happening where
  | turn (t : Turn)
  | join (name : Text) (once : Bool)
  | leave (name : Text) (once : Bool)
deriving Repr, DecidableEq

def happen (k : Console) (c : Classifier) (remote : Remote) : Happening → Console × Effect
  | .turn t => k.turn c remote t
  | .join name once => ({ k with channel := k.channel.subscribe (observer name once) }, .none)
  | .leave name once => ({ k with channel := k.channel.unsubscribe (observer name once) }, .none)

def happens (k : Console) (c : Classifier) (remote : Remote) : List Happening → Console × Effect
  | [] => (k, .none)
  | h :: rest =>
    let (k, shown) := k.happen c remote h
    let (k, later) := k.happens c remote rest
    (k, shown ++ later)

def startOn (channel : Channel Party) (config : EchoConfig) (clock : Binary64) : Console :=
  ⟨.start config, channel.subscribe ear, clock⟩

/-- The chunks that the remote side hands over, in answer to input or by itself. -/
def chunks (k : Console) (remote : Remote) : Happening → List Text
  | .turn (.call (.output chunk)) => [chunk]
  | .turn (.call (.input t)) => if k.session.disposed then [] else remote t
  | .turn (.call (.type t)) => if k.session.disposed then [] else t.codePoints.flatMap remote
  | _ => []

def received (k : Console) (c : Classifier) (remote : Remote) : List Happening → List (Text × List Party)
  | [] => []
  | h :: rest => k.channel.deliveries (k.chunks remote h) ++ (k.happen c remote h).1.received c remote rest

structure Shared (k : Console) : Prop where
  nodup : k.channel.listeners.Nodup
  session : ∀ l ∈ k.channel.listeners, l.name = .session → l = ear ∧ k.session.disposed = false

section
variable (c : Classifier) (remote : Remote)

theorem startOn_shared {channel : Channel Party} (hn : channel.listeners.Nodup)
    (ho : ∀ l ∈ channel.listeners, l.name ≠ .session) (config : EchoConfig) (clock : Binary64) :
    (startOn channel config clock).Shared := by
  constructor
  · exact Channel.subscribe_nodup hn ear
  · intro l hl hname
    rcases Channel.mem_subscribe hl with hl | rfl
    · exact absurd hname (ho l hl)
    · exact ⟨rfl, rfl⟩

theorem Shared.of_sublist {k k' : Console} (hk : k.Shared) (hd : k'.session.disposed = k.session.disposed)
    (hl : k'.channel.listeners.Sublist k.channel.listeners) : k'.Shared := by
  constructor
  · exact hk.nodup.sublist hl
  · intro l hmem hname
    rw [hd]
    exact hk.session l (hl.subset hmem) hname

theorem output_listeners {k : Console} (hk : k.Shared) (chunk : Text) :
    (k.output c chunk).1.channel.listeners = k.channel.listeners.filter (!·.once) := by
  unfold output
  rw [hear_channel, Channel.emit_eq hk.nodup]

theorem Shared.output {k : Console} (hk : k.Shared) (chunk : Text) : (k.output c chunk).1.Shared := by
  refine hk.of_sublist (hear_disposed c chunk _ _) ?_
  rw [output_listeners c hk]
  exact List.filter_sublist

theorem Shared.input {k : Console} (hk : k.Shared) (t : Text) : (k.input c remote t).1.Shared := by
  apply input_keeps _ _ t hk
  · intro k chunk hk
    exact hk.output c chunk
  · intro k t hk
    exact hk.of_sublist (k.session.react_disposed k.clock t) (List.Sublist.refl _)

theorem dispose_listeners {k : Console} (hk : k.Shared) :
    k.dispose.channel.listeners = k.channel.listeners.filter (· ≠ ear) := by
  unfold Console.dispose
  split
  · rename_i hd
    symm
    apply List.filter_eq_self.mpr
    intro l hl
    simp only [decide_eq_true_eq]
    rintro rfl
    have hlive := (hk.session _ hl rfl).2
    rw [hd] at hlive
    cases hlive
  · rfl

theorem dispose_disposed (k : Console) : k.dispose.session.disposed = true := by
  unfold Console.dispose
  split
  · assumption
  · rfl

theorem Shared.dispose {k : Console} (hk : k.Shared) : k.dispose.Shared := by
  have hl := dispose_listeners hk
  constructor
  · rw [hl]
    exact hk.nodup.filter _
  · intro l hmem hname
    rw [hl, List.mem_filter] at hmem
    have hear : l = ear := (hk.session l hmem.1 hname).1
    simp [hear] at hmem

theorem Shared.turn {k : Console} (hk : k.Shared) (t : Turn) : (k.turn c remote t).1.Shared := by
  match t with
  | .call (.input t) => exact hk.input c remote t
  | .call (.type t) => exact inputs_keeps (fun key hk => hk.input c remote key) t.codePoints hk
  | .call (.output chunk) => exact hk.output c chunk
  | .call .dispose => exact hk.dispose
  | .clock _ | .call (.setLocalEcho _) | .call .clear | .call (.advance _) | .call .diagnostics
  | .call (.engine _) => exact hk.of_sublist rfl (List.Sublist.refl _)

theorem Shared.happen {k : Console} (hk : k.Shared) (h : Happening) : (k.happen c remote h).1.Shared := by
  cases h with
  | turn t => exact hk.turn c remote t
  | leave name once => exact hk.of_sublist rfl List.filter_sublist
  | join name once =>
    constructor
    · exact Channel.subscribe_nodup hk.nodup _
    · intro l hl hname
      rcases Channel.mem_subscribe hl with hl | rfl
      · exact hk.session l hl hname
      · cases hname

theorem Shared.happens : ∀ {k : Console} (run : List Happening), k.Shared →
    (k.happens c remote run).1.Shared
  | _, [], hk => hk
  | _, h :: rest, hk => Shared.happens rest (hk.happen c remote h)

/-! ## After the end -/

theorem Shared.observers {k : Console} (hk : k.Shared) (hd : k.session.disposed = true) :
    ∀ l ∈ k.channel.listeners, l.name ≠ .session := by
  intro l hl hname
  have hlive := (hk.session l hl hname).2
  rw [hd] at hlive
  cases hlive

theorem hear_of_observers (chunk : Text) (k : Console) : ∀ {parties : List Party},
    .session ∉ parties → k.hear c chunk parties = (k, .none)
  | [], _ => rfl
  | .session :: _, h => absurd (List.mem_cons_self ..) h
  | .observer name :: rest, h => by
    have ih : k.hear c chunk rest = (k, .none) :=
      hear_of_observers chunk k fun hrest => h (List.mem_cons_of_mem _ hrest)
    exact ih

theorem output_of_ended {k : Console} (hk : k.Shared) (hd : k.session.disposed = true) (chunk : Text) :
    k.output c chunk =
      ({ k with channel := { k.channel with listeners := k.channel.listeners.filter (!·.once) } }, .none) := by
  have hparties : Party.session ∉ k.channel.listeners.map Listener.name := by
    intro hmem
    obtain ⟨l, hl, hname⟩ := List.mem_map.mp hmem
    exact hk.observers hd l hl hname
  unfold output
  rw [Channel.emit_eq hk.nodup]
  exact hear_of_observers c chunk _ hparties

theorem input_of_ended {k : Console} (hd : k.session.disposed = true) (t : Text) :
    k.input c remote t = (k, .logLine (Session.lateInput t)) := by
  simp [input, hd]

/-- Nothing is shown or sent, no mismatch is found, and whether the session has ended is left as it was. -/
structure Silent (k : Console) (r : Console × Effect) : Prop where
  writes : r.2.writes = []
  sent : r.1.channel.sent = k.channel.sent
  mismatches : r.1.session.engine.mismatches = k.session.engine.mismatches
  disposed : r.1.session.disposed = k.session.disposed

theorem Silent.refl (k : Console) : k.Silent (k, .none) := ⟨rfl, rfl, rfl, rfl⟩

theorem Silent.append {k : Console} {r r' : Console × Effect} (h : k.Silent r) (h' : r.1.Silent r') :
    k.Silent (r'.1, r.2 ++ r'.2) := by
  constructor
  · simp [h.writes, h'.writes]
  · exact h'.sent.trans h.sent
  · exact h'.mismatches.trans h.mismatches
  · exact h'.disposed.trans h.disposed

theorem inputs_of_ended : ∀ (keys : List Text) {k : Console}, k.session.disposed = true →
    (k.inputs c remote keys).1 = k ∧ (k.inputs c remote keys).2.writes = []
  | [], _, _ => ⟨rfl, rfl⟩
  | key :: rest, k, hd => by
    obtain ⟨hsame, hwrites⟩ := inputs_of_ended rest hd
    simp [inputs, input_of_ended c remote hd, hsame, hwrites, Effect.logLine]

end

namespace Happening

/-- Not a call that goes past the session to its engine. -/
def isOutside : Happening → Bool
  | .turn (.call (.engine _)) => false
  | _ => true

def forgets : Happening → Bool
  | .turn (.call .clear) | .turn (.call (.setLocalEcho false)) => true
  | _ => false

def chunk? : Happening → Option Text
  | .turn (.call (.output chunk)) => some chunk
  | _ => none

/-- Who listens afterwards, as far as the session has no part in it. -/
def audience (listeners : List (Listener Party)) : Happening → List (Listener Party)
  | .turn (.call (.output _)) => listeners.filter (!·.once)
  | .turn _ => listeners
  | .join name once =>
    if observer name once ∈ listeners then listeners else listeners ++ [observer name once]
  | .leave name once => listeners.filter (· ≠ observer name once)

def broadcast (listeners : List (Listener Party)) : List Happening → List (Text × List Party)
  | [] => []
  | h :: rest =>
    (h.chunk?.map fun chunk => (chunk, listeners.map Listener.name)).toList ++
      broadcast (h.audience listeners) rest

end Happening

section
variable (c : Classifier) (remote : Remote)

/-- One happening after the end. -/
theorem happen_of_ended {k : Console} (hk : k.Shared) (hd : k.session.disposed = true) {h : Happening}
    (ho : h.isOutside = true) :
    k.Silent (k.happen c remote h) ∧
      (k.happen c remote h).1.session.engine.pending = (if h.forgets then [] else k.session.engine.pending) ∧
      (k.happen c remote h).1.channel.listeners = h.audience k.channel.listeners ∧
      k.channel.deliveries (k.chunks remote h) =
        (h.chunk?.map fun chunk => (chunk, k.channel.listeners.map Listener.name)).toList := by
  match h, ho with
  | .turn (.call (.input t)), _ =>
    have hin : k.happen c remote (.turn (.call (.input t))) = _ := input_of_ended c remote hd t
    rw [hin]
    exact ⟨⟨rfl, rfl, rfl, rfl⟩, rfl, rfl, by simp [chunks, hd, Channel.deliveries, Happening.chunk?]⟩
  | .turn (.call (.type t)), _ =>
    obtain ⟨hsame, hwrites⟩ := inputs_of_ended c remote t.codePoints hd
    have hsame : (k.happen c remote (.turn (.call (.type t)))).1 = k := hsame
    refine ⟨⟨hwrites, ?_, ?_, ?_⟩, ?_, ?_, by simp [chunks, hd, Channel.deliveries, Happening.chunk?]⟩
    all_goals rw [hsame]
    · rfl
    · rfl
  | .turn (.call (.output chunk)), _ =>
    have hout : k.happen c remote (.turn (.call (.output chunk))) = _ := output_of_ended c hk hd chunk
    rw [hout]
    refine ⟨⟨rfl, rfl, rfl, rfl⟩, rfl, rfl, ?_⟩
    simp [chunks, Channel.deliveries, Channel.emit_eq hk.nodup, Happening.chunk?]
  | .turn (.call .dispose), _ =>
    have hsame : k.happen c remote (.turn (.call .dispose)) = (k, .none) := by
      simp [happen, turn, call, dispose, hd]
    rw [hsame]
    exact ⟨.refl k, rfl, rfl, rfl⟩
  | .turn (.call (.setLocalEcho true)), _ | .turn (.call (.setLocalEcho false)), _ | .turn (.call .clear), _
  | .turn (.call (.advance _)), _ | .turn (.call .diagnostics), _ | .turn (.clock _), _ | .leave _ _, _ =>
    exact ⟨⟨rfl, rfl, rfl, rfl⟩, rfl, rfl, rfl⟩
  | .join name once, _ =>
    exact ⟨⟨rfl, Channel.subscribe_sent _ _, rfl, rfl⟩, rfl, Channel.subscribe_listeners _ _, rfl⟩

/-- A run after the end. -/
theorem happens_of_ended : ∀ {run : List Happening} {k : Console}, k.Shared → k.session.disposed = true →
    (∀ h ∈ run, h.isOutside = true) →
    k.Silent (k.happens c remote run) ∧
      (k.happens c remote run).1.session.engine.pending =
        (if run.any Happening.forgets then [] else k.session.engine.pending) ∧
      k.received c remote run = Happening.broadcast k.channel.listeners run
  | [], k, _, _, _ => ⟨.refl k, rfl, rfl⟩
  | h :: rest, k, hk, hd, hrun => by
    obtain ⟨ho, hrest⟩ := List.forall_mem_cons.mp hrun
    obtain ⟨hsilent, hpending, haudience, hdelivered⟩ := happen_of_ended c remote hk hd ho
    obtain ⟨hsilents, hpendings, hdeliveries⟩ :=
      happens_of_ended (hk.happen c remote h) (hsilent.disposed.trans hd) hrest
    refine ⟨hsilent.append hsilents, ?_, ?_⟩
    · refine hpendings.trans ?_
      rw [hpending, List.any_cons]
      cases h.forgets <;> simp
    · rw [received, Happening.broadcast, hdelivered, hdeliveries, haudience]

end

/-- **A session that has ended is silent.**  Whatever came before on a channel that others share, and whatever
comes after short of calls on the engine itself, nothing is shown or sent any more, the mismatches stay as
they are, the session stays ended and off the channel, and the keys that wait are those that waited at its end
until they are forgotten.  All others are notified of each chunk, once for each time they subscribed. -/
theorem dispose_silences (c : Classifier) (remote : Remote) (config : EchoConfig) (clock : Binary64)
    (channel : Channel Party) (hn : channel.listeners.Nodup) (ho : ∀ l ∈ channel.listeners, l.name ≠ .session)
    (before later : List Happening) (hlater : ∀ h ∈ later, h.isOutside = true) :
    let k := ((startOn channel config clock).happens c remote before).1
    let r := k.dispose.happens c remote later
    (r.2.writes = [] ∧ r.1.channel.sent = k.channel.sent ∧
      r.1.session.engine.diagnostics = k.session.engine.diagnostics ∧
      r.1.session.engine.pending = if later.any Happening.forgets then [] else k.session.engine.pending) ∧
    (r.1.session.disposed = true ∧ ∀ l ∈ r.1.channel.listeners, l.name ≠ .session) ∧
    r.1.channel.listeners.Nodup ∧
    k.dispose.received c remote later =
      Happening.broadcast (k.channel.listeners.filter (· ≠ ear)) later := by
  intro k r
  have hk : k.Shared := Shared.happens c remote before (startOn_shared hn ho config clock)
  have hengine : k.dispose.session.engine = k.session.engine := by
    unfold dispose
    split <;> rfl
  have hsent : k.dispose.channel.sent = k.channel.sent := by
    unfold dispose
    split <;> rfl
  obtain ⟨hsilent, hpending, hdelivered⟩ :=
    happens_of_ended c remote hk.dispose k.dispose_disposed hlater
  have hended : r.1.session.disposed = true := hsilent.disposed.trans k.dispose_disposed
  have hshared : r.1.Shared := Shared.happens c remote later hk.dispose
  refine ⟨⟨hsilent.writes, hsilent.sent.trans hsent, ?_, ?_⟩, ⟨hended, hshared.observers hended⟩,
    hshared.nodup, ?_⟩
  · unfold Engine.diagnostics
    rw [hsilent.mismatches, hengine]
  · rw [← hengine]
    exact hpending
  · rw [← dispose_listeners hk]
    exact hdelivered

def sharedChannel : Channel Party := ⟨[observer [0x70] false, observer [0x71] true], []⟩

def beforeEnd : List Happening :=
  [.turn (.call (.engine (.echo [0x61]))), .turn (.call (.output [0x78])), .join [0x72] true,
    .turn (.call (.engine (.type [0x62, 0x63])))]

def afterEnd : List Happening :=
  [.turn (.call (.input [0x64])), .turn (.call (.setLocalEcho true)), .turn (.call (.output [0x62])),
    .turn (.clock .nan), .turn (.call .dispose), .leave [0x70] false, .join [0x73] false,
    .turn (.call (.type [0x65, 0x66])), .turn (.call (.output [0x21]))]

theorem dispose_silences_sharedChannel :
    let k := ((startOn sharedChannel .default 0).happens .standard .loopback beforeEnd).1
    let r := k.dispose.happens .standard .loopback afterEnd
    sharedChannel.listeners.Nodup ∧ (∀ l ∈ sharedChannel.listeners, l.name ≠ .session) ∧
      (∀ h ∈ afterEnd, h.isOutside = true) ∧
      r.2.writes = [] ∧ r.1.channel.sent = [] ∧ r.1.session.engine.pending = [0x62, 0x63] ∧
      k.dispose.received .standard .loopback afterEnd =
        [([0x62], [.observer [0x70], .observer [0x72]]), ([0x21], [.observer [0x73]])] := by
  have hn : sharedChannel.listeners.Nodup := by decide
  have ho : ∀ l ∈ sharedChannel.listeners, l.name ≠ .session := by decide
  have hlater : ∀ h ∈ afterEnd, h.isOutside = true := by decide
  obtain ⟨⟨hwrites, hsent, -, hpending⟩, -, -, hdelivered⟩ :=
    dispose_silences .standard .loopback .default 0 sharedChannel hn ho beforeEnd afterEnd hlater
  refine ⟨hn, ho, hlater, hwrites, hsent.trans ?_, hpending.trans ?_, hdelivered.trans ?_⟩
  all_goals decide +kernel

end Console

end Typeahead
