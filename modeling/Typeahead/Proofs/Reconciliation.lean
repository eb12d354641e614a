import Typeahead.Echo.Engine
import Typeahead.Proofs.Segments

/-!
# Reconciliation, segment by segment

The account of a chunk goes through its segments one by one, to the end: it says which keys are left
to confirm, what is shown, and which mismatches are found.  `Engine.write` gives up on a chunk once a
literal confirms nothing, but only with an empty queue, and an empty queue lets everything through
(`walk_nil`).  So the engine agrees with the account of the whole chunk (`write_settles`).
-/

namespace Typeahead

/-- What some remote output comes to: the keys still to be confirmed, the text shown, and the
mismatches found. -/
structure Account where
  queue : Text
  shown : Text
  mismatches : List Mismatch
deriving Repr, DecidableEq

namespace Account

/-- A literal takes as many keys as it has units, or all there are.  If they are its first units, the
rest of it is shown; otherwise it is shown whole and no key is left. -/
def literal (q t : Text) : Account :=
  let n := min t.length q.length
  if q.take n = t.take n then ⟨q.drop n, t.drop n, []⟩ else ⟨[], t, [⟨t, q.take n⟩]⟩

/-- A control span is shown once.  A backspace takes a key, and one more is shown ahead of it if that
key was no backspace. -/
def control (q t : Text) : Account :=
  if t = [Control.backspace] then
    match q with
    | [] => ⟨[], t, []⟩
    | key :: q => ⟨q, if key = Control.backspace then t else Control.backspace :: t, []⟩
  else ⟨q, t, []⟩

def step (q : Text) : Segment → Account
  | .literal t => literal q t
  | .control t => control q t

def andThen (a b : Account) : Account := ⟨b.queue, a.shown ++ b.shown, a.mismatches ++ b.mismatches⟩

def walk (q : Text) : List Segment → Account
  | [] => ⟨q, [], []⟩
  | s :: row => (step q s).andThen (walk (step q s).queue row)

theorem andThen_assoc (a b d : Account) : (a.andThen b).andThen d = a.andThen (b.andThen d) := by
  simp [andThen]

@[simp] theorem andThen_rest (a : Account) : a.andThen ⟨a.queue, [], []⟩ = a := by
  simp [andThen]

theorem walk_append (q : Text) (row row' : List Segment) :
    walk q (row ++ row') = (walk q row).andThen (walk (walk q row).queue row') := by
  induction row generalizing q with
  | nil => simp [walk, andThen]
  | cons s row ih => simp only [List.cons_append, walk, ih, andThen_assoc]; rfl

/-! ## One segment -/

theorem literal_eq (q t : Text) : literal q t =
    if q.take t.length <+: t then ⟨q.drop t.length, t.drop q.length, []⟩
    else ⟨[], t, [⟨t, q.take t.length⟩]⟩ := by
  have htake : q.take (min t.length q.length) = q.take t.length := by
    rw [List.take_eq_take_iff]; omega
  have hagree : q.take t.length = t.take (min t.length q.length) ↔ q.take t.length <+: t := by
    rw [List.prefix_iff_eq_take, List.length_take]
  simp only [literal, htake, hagree]
  rcases Nat.le_total t.length q.length with h | h
  · simp [Nat.min_eq_left h, List.drop_of_length_le h]
  · simp [Nat.min_eq_right h, List.drop_of_length_le h]

@[simp] theorem literal_nil_text (q : Text) : literal q [] = ⟨q, [], []⟩ := by
  simp [literal_eq]

@[simp] theorem literal_nil_keys (t : Text) : literal [] t = ⟨[], t, []⟩ := by
  simp [literal_eq]

@[simp] theorem step_nil (s : Segment) : step [] s = ⟨[], s.text, []⟩ := by
  cases s with
  | literal t => simp [step, Segment.text]
  | control t => simp [step, control, Segment.text]

theorem step_mismatches (q : Text) (s : Segment) : (step q s).mismatches = [] ∨
    ∃ m, s = .literal m.received ∧ step q s = ⟨[], m.received, [m]⟩ := by
  cases s with
  | literal t =>
    simp only [step, literal_eq]
    split
    · exact Or.inl rfl
    · exact Or.inr ⟨⟨t, q.take t.length⟩, rfl, rfl⟩
  | control t =>
    refine Or.inl ?_
    simp only [step, control]
    split
    · cases q <;> rfl
    · rfl

/-! ## Rows of segments -/

theorem walk_nil (row : List Segment) : walk [] row = ⟨[], Segment.spell row, []⟩ := by
  induction row with
  | nil => rfl
  | cons s row ih => simp [walk, ih, andThen]

/-- There is at most one mismatch; it leaves nothing to confirm, and from its literal on all is shown
as it is. -/
theorem walk_mismatches (q : Text) (row : List Segment) : (walk q row).mismatches = [] ∨
    ∃ m before after, row = before ++ .literal m.received :: after ∧ (walk q before).mismatches = [] ∧
      walk q row = ⟨[], (walk q before).shown ++ m.received ++ Segment.spell after, [m]⟩ := by
  induction row generalizing q with
  | nil => exact Or.inl rfl
  | cons s row ih =>
    rcases step_mismatches q s with hs | ⟨m, rfl, hs⟩
    · rcases ih (step q s).queue with h | ⟨m, before, after, rfl, hb, h⟩
      · exact Or.inl (by simp [walk, andThen, hs, h])
      · exact Or.inr ⟨m, s :: before, after, rfl, by simp [walk, andThen, hs, hb], by simp [walk, andThen, hs, h]⟩
    · exact Or.inr ⟨m, [], row, rfl, rfl, by simp [walk, andThen, hs, walk_nil]⟩

theorem walk_mismatches_le (q : Text) (row : List Segment) : (walk q row).mismatches.length ≤ 1 := by
  rcases walk_mismatches q row with h | ⟨m, before, after, _, _, h⟩ <;> simp [h]

end Account

/-! ## The engine -/

namespace Cut

def segments (c : Cut) : List Segment :=
  c.pieces.flatMap (fun p => [.literal p.literal, .control p.control]) ++ [.literal c.tail]

theorem segments_cons (p : Piece) (rest : List Piece) (tail : Text) :
    segments ⟨p :: rest, tail⟩ = .literal p.literal :: .control p.control :: segments ⟨rest, tail⟩ := rfl

theorem spell_segments (tail : Text) : ∀ pieces : List Piece,
    Segment.spell (segments ⟨pieces, tail⟩) = join ⟨pieces, tail⟩
  | [] => by simp [segments, join, Segment.text]
  | p :: rest => by
    rw [segments_cons, Segment.spell_cons, Segment.spell_cons, spell_segments tail rest]
    simp [join, Segment.text]

theorem segments_cutAt (text : Text) : ∀ (start : Nat) (spans : List Span),
    (Classifier.cutAt text start spans).segments = Classifier.segmentsFrom text start spans
  | _, [] => rfl
  | _, s :: rest => by
    simp only [Classifier.cutAt, segments_cons, Classifier.segmentsFrom, segments_cutAt text s.stop rest]

end Cut

namespace Engine

variable {τ : Type}

/-- What an operation answered with agrees with an account: it left the account's queue, showed its
text and kept a line for each of its mismatches, and it did not touch the gate. -/
structure Settles (e : Engine τ) (a : Account) (r : Engine τ × Effect) : Prop where
  engine : r.1 = ⟨⟨a.queue⟩, e.gate, ⟨e.mismatches.entries ++ a.mismatches.map Mismatch.entry⟩⟩
  shown : r.2.shown = a.shown
  log : r.2.log = a.mismatches.map fun m => MismatchLog.notice m.entry

theorem Settles.pending {e : Engine τ} {a : Account} {r : Engine τ × Effect} (h : e.Settles a r) :
    r.1.pending = a.queue := by
  rw [h.engine]; rfl

theorem Settles.count {e : Engine τ} {a : Account} {r : Engine τ × Effect} (h : e.Settles a r) :
    r.1.mismatches.count = e.mismatches.count + a.mismatches.length := by
  simp [h.engine, MismatchLog.count]

theorem Settles.andThen {e : Engine τ} {a b : Account} {r r' : Engine τ × Effect} (h : e.Settles a r)
    (h' : r.1.Settles b r') : e.Settles (a.andThen b) (r'.1, r.2 ++ r'.2) where
  engine := by simp [h'.engine, h.engine, Account.andThen]
  shown := by simp [h'.shown, h.shown, Account.andThen]
  log := by simp [h'.log, h.log, Account.andThen]

theorem settles_write (e : Engine τ) (t : Text) : e.Settles ⟨e.pending, t, []⟩ (e, .write t) :=
  ⟨by simp [pending], by simp, rfl⟩

/-- All that a literal can do: it is confirmed whole, or it holds all keys and goes on, or it is out
of step. -/
theorem confirm_cases (e : Engine τ) (t : Text) :
    (e.pending.take t.length = t ∧
      e.confirm t = (t.length, { e with queue := ⟨e.pending.drop t.length⟩ }, .none)) ∨
    (e.pending.length < t.length ∧ e.pending <+: t ∧
      e.confirm t = (e.pending.length, { e with queue := .empty }, .write (t.drop e.pending.length))) ∨
    (¬ e.pending.take t.length <+: t ∧
      e.confirm t = (0, ⟨.empty, e.gate, e.mismatches.add (Mismatch.entry ⟨t, e.pending.take t.length⟩)⟩,
        .logLine (MismatchLog.notice (Mismatch.entry ⟨t, e.pending.take t.length⟩)) ++ .write t)) := by
  simp only [confirm, EchoQueue.front, EchoQueue.dropFront, beq_iff_eq, Text.startsWith, pending,
    List.isPrefixOf_iff_prefix]
  by_cases hall : e.queue.toList.take t.length = t
  · exact Or.inl ⟨hall, if_pos hall⟩
  rw [if_neg hall]
  refine Or.inr ?_
  by_cases hagree : e.queue.toList.take t.length <+: t
  · -- the keys taken start the text and do not fill it, so there were no more of them
    have hlen : e.queue.toList.length < t.length := by
      have hne : (e.queue.toList.take t.length).length ≠ t.length := fun h => hall (hagree.eq_of_length h)
      rw [List.length_take] at hne
      omega
    rw [if_pos hagree]
    rw [List.take_of_length_le (Nat.le_of_lt hlen)] at hagree ⊢
    exact Or.inl ⟨hlen, hagree, by rw [List.drop_of_length_le (Nat.le_of_lt hlen)]; rfl⟩
  · exact Or.inr ⟨hagree, if_neg hagree⟩

theorem confirm_settles (e : Engine τ) (t : Text) : e.Settles (Account.literal e.pending t) (e.confirm t).2 := by
  rw [Account.literal_eq]
  rcases e.confirm_cases t with ⟨hall, h⟩ | ⟨hlen, hagree, h⟩ | ⟨hagree, h⟩
  · have hlen : t.length ≤ e.pending.length := by
      rw [← hall, List.length_take]; exact Nat.min_le_right _ _
    rw [h, if_pos (by simp only [hall, List.prefix_rfl])]
    exact ⟨by simp, by simp [List.drop_of_length_le hlen], rfl⟩
  · have htake := List.take_of_length_le (Nat.le_of_lt hlen)
    rw [h, if_pos (by rw [htake]; exact hagree), List.drop_of_length_le (Nat.le_of_lt hlen)]
    exact ⟨by simp [EchoQueue.empty], by simp, rfl⟩
  · rw [h, if_neg hagree]
    exact ⟨rfl, by simp, rfl⟩

theorem pending_of_confirm_zero {e : Engine τ} {t : Text} (ht : t ≠ []) (h : (e.confirm t).1 = 0) :
    (e.confirm t).2.1.pending = [] := by
  rcases e.confirm_cases t with ⟨_, hc⟩ | ⟨_, _, hc⟩ | ⟨_, hc⟩
  · rw [hc] at h
    exact absurd (List.length_eq_zero_iff.mp h) ht
  · rw [hc]; rfl
  · rw [hc]; rfl

theorem passControl_settles (e : Engine τ) (t : Text) :
    e.Settles (Account.control e.pending t) (e.passControl t) := by
  simp only [passControl, Account.control, beq_iff_eq, pending]
  by_cases ht : t = [Control.backspace]
  · rw [if_pos ht, if_pos ht]
    cases hq : e.queue.toList with
    | nil => simpa [EchoQueue.pop?, hq, pending] using e.settles_write t
    | cons key q =>
      simp only [EchoQueue.pop?, hq]
      refine ⟨by simp, ?_, ?_⟩
      · by_cases hkey : key = Control.backspace <;> simp [hkey, ht]
      · split <;> rfl
  · rw [if_neg ht, if_neg ht]
    exact e.settles_write t

theorem reconcile_settles (tail : Text) : ∀ (pieces : List Piece) (e : Engine τ),
    e.Settles (Account.walk e.pending (Cut.segments ⟨pieces, tail⟩)) (e.reconcile pieces tail)
  | [], e => by
    simpa [Cut.segments, Account.walk, Account.step, reconcile] using e.confirm_settles tail
  | p :: rest, e => by
    rw [Cut.segments_cons, reconcile]
    have hcontrol (e : Engine τ) : e.Settles (Account.walk e.pending (.control p.control :: Cut.segments ⟨rest, tail⟩))
        (((e.passControl p.control).1.reconcile rest tail).1,
          (e.passControl p.control).2 ++ ((e.passControl p.control).1.reconcile rest tail).2) := by
      have hp := e.passControl_settles p.control
      have hr := reconcile_settles tail rest (e.passControl p.control).1
      rw [hp.pending] at hr
      exact hp.andThen hr
    by_cases hl : p.literal = []
    · rw [if_pos (by simp [hl]), hl]
      simpa [Account.walk, Account.step, Account.andThen] using hcontrol e
    · rw [if_neg (by simp [hl])]
      have hc := e.confirm_settles p.literal
      rw [Account.walk, Account.step, ← hc.pending]
      split
      · rename_i e' first h
        -- the engine stops here, but with an empty queue
        have he' : e'.pending = [] := by
          have := pending_of_confirm_zero hl (congrArg Prod.fst h)
          rwa [h] at this
        rw [h] at hc ⊢
        have hw := e'.settles_write (p.control ++ Cut.join ⟨rest, tail⟩)
        rw [he'] at hw ⊢
        rw [Account.walk_nil, Segment.spell_cons, Cut.spell_segments]
        exact hc.andThen hw
      · rename_i n e' first h
        rw [h] at hc ⊢
        have hw := hc.andThen (hcontrol e')
        rwa [← Effect.append_assoc] at hw

theorem write_settles (e : Engine τ) (c : Classifier) (chunk : Text) :
    e.Settles (Account.walk e.pending (c.segments chunk)) (e.write c chunk) := by
  have h := e.reconcile_settles (c.cut chunk).tail (c.cut chunk).pieces
  rwa [show Cut.segments ⟨(c.cut chunk).pieces, (c.cut chunk).tail⟩ = c.segments chunk from
    Cut.segments_cutAt chunk 0 _] at h

theorem write_settles_of_nil {e : Engine τ} (hq : e.pending = []) (c : Classifier) (chunk : Text) :
    e.Settles ⟨[], chunk, []⟩ (e.write c chunk) := by
  have h := e.write_settles c chunk
  rwa [hq, Account.walk_nil, c.segments_text] at h

/-- With nothing waiting a chunk is shown as it comes, and leaves the engine as it was. -/
theorem write_fst_of_nil {e : Engine τ} (hq : e.pending = []) (c : Classifier) (chunk : Text) :
    (e.write c chunk).1 = e := by
  have hq : e.queue = ⟨[]⟩ := congrArg EchoQueue.mk hq
  simp [(write_settles_of_nil (congrArg EchoQueue.toList hq) c chunk).engine, ← hq]

/-- **The engine keeps the account of the whole chunk**: it shows that text, leaves those keys and
reports those mismatches, of which there is at most one.  After a mismatch no key is left, and all of
the chunk from the literal in question on is shown as it came; with no key to begin with, all of it is. -/
theorem write_keeps_account (e : Engine τ) (c : Classifier) (chunk : Text) :
    let a := Account.walk e.pending (c.segments chunk)
    let r := e.write c chunk
    r.2.shown = a.shown ∧ r.1.pending = a.queue ∧ r.1.gate = e.gate ∧
      r.1.mismatches.entries = e.mismatches.entries ++ a.mismatches.map Mismatch.entry ∧
      r.2.log = a.mismatches.map (fun m => MismatchLog.notice m.entry) ∧
      a.mismatches.length ≤ 1 ∧
      (∀ m ∈ a.mismatches, r.1.pending = [] ∧ ∃ before after,
        c.segments chunk = before ++ .literal m.received :: after ∧
        r.2.shown = (Account.walk e.pending before).shown ++ m.received ++ Segment.spell after) ∧
      (e.pending = [] → a.mismatches = [] ∧ r.2.shown = chunk) := by
  intro a r
  have h : e.Settles a r := e.write_settles c chunk
  refine ⟨h.shown, h.pending, by rw [h.engine], by rw [h.engine], h.log, Account.walk_mismatches_le _ _, ?_, ?_⟩
  · intro m hm
    rcases Account.walk_mismatches e.pending (c.segments chunk) with hnone | ⟨m', before, after, hrow, _, hw⟩
    · have hnone : a.mismatches = [] := hnone
      rw [hnone] at hm
      cases hm
    · have hw : a = _ := hw
      have hm' : m = m' := by simpa [hw] using hm
      subst hm'
      exact ⟨by rw [h.pending, hw], before, after, hrow, by rw [h.shown, hw]⟩
  · intro hq
    have hw : a = ⟨[], chunk, []⟩ := by
      show Account.walk e.pending (c.segments chunk) = _
      rw [hq, Account.walk_nil, c.segments_text]
    exact ⟨by rw [hw], by rw [h.shown, hw]⟩

end Engine

end Typeahead
