import Mathlib.Data.List.Induction
import Mathlib.Data.Nat.Find
import Typeahead.Proofs.Delivery

/-!
# Who listens after a run of calls

Subscribing gives out a handle, whose listener it takes off the channel, also when the handle is old or has been used.
From the calls alone it is told who listens after them, and since which of them (`Since`).  The listeners of a channel
are those, in that order (`Subscriptions.run_isRoll`), so a chunk goes to each of them once, and then just those who
listen once are gone (`Subscriptions.delivery_follows_roll`).
-/

namespace Typeahead

variable {ι : Type}

/-- A call of a channel.  Handles are numbered in the order in which they are given out. -/
inductive ChannelCall (ι : Type) where
  | subscribe (l : Listener ι)
  | cancel (handle : Nat)
  | emit (chunk : Text)
  | send (input : Text)
deriving Repr, DecidableEq

namespace ChannelCall

def subscribed? : ChannelCall ι → Option (Listener ι)
  | subscribe l => some l
  | _ => none

def given (calls : List (ChannelCall ι)) : List (Listener ι) := calls.filterMap subscribed?

def TakesOff (handles : List (Listener ι)) (l : Listener ι) : ChannelCall ι → Prop
  | subscribe _ => False
  | cancel handle => handles[handle]? = some l
  | emit _ => l.once = true
  | send _ => False

def TakesOffAt (calls : List (ChannelCall ι)) (l : Listener ι) (i : Nat) : Prop :=
  ∃ call, calls[i]? = some call ∧ call.TakesOff (given (calls.take i)) l

/-- After the calls a listener listens, since the one at a place: it subscribes there, did not listen before, and
nothing has taken it off. -/
structure Since (calls : List (ChannelCall ι)) (l : Listener ι) (i : Nat) : Prop where
  joins : calls[i]? = some (subscribe l)
  anew : ∀ k < i, calls[k]? = some (subscribe l) → ∃ j, k < j ∧ j < i ∧ TakesOffAt calls l j
  stays : ∀ j, i < j → ¬ TakesOffAt calls l j

/-- All who listen after the calls, once each, in the order of the calls since which they listen. -/
structure IsRoll (calls : List (ChannelCall ι)) (listeners : List (Listener ι)) : Prop where
  nodup : listeners.Nodup
  mem_iff : ∀ l, l ∈ listeners ↔ ∃ i, Since calls l i
  inOrder : listeners.Pairwise fun l l' => ∀ i i', Since calls l i → Since calls l' i' → i < i'

/-! ## One more call -/

section
variable {calls : List (ChannelCall ι)} {call : ChannelCall ι} {l : Listener ι} {i : Nat}

theorem TakesOffAt.lt_length (h : TakesOffAt calls l i) : i < calls.length := by
  obtain ⟨call, hcall, -⟩ := h
  exact (List.getElem?_eq_some_iff.mp hcall).1

theorem Since.lt_length (h : Since calls l i) : i < calls.length := (List.getElem?_eq_some_iff.mp h.joins).1

theorem takesOffAt_concat_of_lt (h : i < calls.length) : TakesOffAt (calls ++ [call]) l i ↔ TakesOffAt calls l i := by
  unfold TakesOffAt
  rw [List.getElem?_append_left h, List.take_append_of_le_length (Nat.le_of_lt h)]

theorem takesOffAt_concat_length : TakesOffAt (calls ++ [call]) l calls.length ↔ call.TakesOff (given calls) l := by
  simp [TakesOffAt]

theorem lt_length_or_eq (h : i < (calls ++ [call]).length) : i < calls.length ∨ i = calls.length := by
  rw [List.length_append, List.length_singleton] at h
  exact Nat.lt_or_eq_of_le (Nat.le_of_lt_succ h)

/-- A listener that was not taken off listens since some call. -/
theorem exists_since (hjoins : calls[i]? = some (subscribe l)) (hstays : ∀ j, i < j → ¬ TakesOffAt calls l j) :
    ∃ k, Since calls l k := by
  classical
  have hexists : ∃ k, calls[k]? = some (subscribe l) ∧ ∀ j, k < j → ¬ TakesOffAt calls l j := ⟨i, hjoins, hstays⟩
  -- the first subscription that nothing has taken off
  obtain ⟨hfirst, hkept⟩ := Nat.find_spec hexists
  refine ⟨Nat.find hexists, hfirst, ?_, hkept⟩
  intro k hk hsubscribes
  by_contra hnone
  refine Nat.find_min hexists hk ⟨hsubscribes, ?_⟩
  intro j hkj hj
  rcases Nat.lt_trichotomy j (Nat.find hexists) with hlt | heq | hgt
  · exact hnone ⟨j, hkj, hlt, hj⟩
  · obtain ⟨call, hcall, htakes⟩ := hj
    rw [heq, hfirst] at hcall
    cases hcall
    exact htakes.elim
  · exact hkept j hgt hj

theorem since_concat_of_lt (hi : i < calls.length) :
    Since (calls ++ [call]) l i ↔ Since calls l i ∧ ¬ call.TakesOff (given calls) l := by
  constructor
  · intro h
    refine ⟨⟨?_, ?_, ?_⟩, ?_⟩
    · rw [← h.joins, List.getElem?_append_left hi]
    · intro k hk hsubscribes
      obtain ⟨j, hkj, hji, hj⟩ :=
        h.anew k hk ((List.getElem?_append_left (Nat.lt_trans hk hi)).trans hsubscribes)
      exact ⟨j, hkj, hji, (takesOffAt_concat_of_lt (Nat.lt_trans hji hi)).mp hj⟩
    · intro j hij hj
      exact h.stays j hij ((takesOffAt_concat_of_lt hj.lt_length).mpr hj)
    · intro htakes
      exact h.stays _ hi (takesOffAt_concat_length.mpr htakes)
  · rintro ⟨h, htakes⟩
    refine ⟨?_, ?_, ?_⟩
    · rw [List.getElem?_append_left hi, h.joins]
    · intro k hk hsubscribes
      rw [List.getElem?_append_left (Nat.lt_trans hk hi)] at hsubscribes
      obtain ⟨j, hkj, hji, hj⟩ := h.anew k hk hsubscribes
      exact ⟨j, hkj, hji, (takesOffAt_concat_of_lt (Nat.lt_trans hji hi)).mpr hj⟩
    · intro j hij hj
      rcases lt_length_or_eq hj.lt_length with hlt | rfl
      · exact h.stays j hij ((takesOffAt_concat_of_lt hlt).mp hj)
      · exact htakes (takesOffAt_concat_length.mp hj)

theorem since_concat_length :
    Since (calls ++ [call]) l calls.length ↔ call = subscribe l ∧ ∀ k, ¬ Since calls l k := by
  constructor
  · intro h
    refine ⟨by simpa using h.joins, ?_⟩
    intro k hk
    obtain ⟨j, hkj, hj, htakes⟩ :=
      h.anew k hk.lt_length ((List.getElem?_append_left hk.lt_length).trans hk.joins)
    exact hk.stays j hkj ((takesOffAt_concat_of_lt hj).mp htakes)
  · rintro ⟨rfl, hnone⟩
    refine ⟨by simp, ?_, ?_⟩
    · intro k hk hsubscribes
      rw [List.getElem?_append_left hk] at hsubscribes
      by_contra hkept
      have hlistens : ∃ m, Since calls l m := by
        apply exists_since hsubscribes
        intro j hkj hj
        exact hkept ⟨j, hkj, hj.lt_length, (takesOffAt_concat_of_lt hj.lt_length).mpr hj⟩
      obtain ⟨m, hm⟩ := hlistens
      exact hnone m hm
    · intro j hj htakes
      rcases lt_length_or_eq htakes.lt_length with hlt | rfl
      · exact Nat.lt_asymm hlt hj
      · exact Nat.lt_irrefl _ hj

/-- What one more call does to the places since which listeners listen. -/
theorem since_concat : Since (calls ++ [call]) l i ↔
    (Since calls l i ∧ ¬ call.TakesOff (given calls) l) ∨
    (i = calls.length ∧ call = subscribe l ∧ ∀ k, ¬ Since calls l k) := by
  constructor
  · intro h
    rcases lt_length_or_eq h.lt_length with hi | rfl
    · exact Or.inl ((since_concat_of_lt hi).mp h)
    · exact Or.inr ⟨rfl, since_concat_length.mp h⟩
  · rintro (⟨h, htakes⟩ | ⟨rfl, h⟩)
    · exact (since_concat_of_lt h.lt_length).mpr ⟨h, htakes⟩
    · exact since_concat_length.mpr h

end

end ChannelCall

open ChannelCall

structure Subscriptions (ι : Type) where
  channel : Channel ι
  handles : List (Listener ι)
deriving Repr, DecidableEq

namespace Subscriptions

variable [DecidableEq ι]

def call (s : Subscriptions ι) : ChannelCall ι → Subscriptions ι × List (ι × Text)
  | .subscribe l => (⟨s.channel.subscribe l, s.handles ++ [l]⟩, [])
  | .cancel handle => ({ s with channel := s.handles[handle]?.elim s.channel s.channel.unsubscribe }, [])
  | .emit chunk => ({ s with channel := s.channel.emit.1 }, s.channel.emit.2.map (·, chunk))
  | .send input => ({ s with channel := s.channel.send input }, [])

def run (calls : List (ChannelCall ι)) : Subscriptions ι × List (ι × Text) :=
  calls.foldl (fun r call => ((r.1.call call).1, r.2 ++ (r.1.call call).2)) (⟨.fresh, []⟩, [])

theorem run_concat (calls : List (ChannelCall ι)) (call : ChannelCall ι) : run (calls ++ [call]) =
    (((run calls).1.call call).1, (run calls).2 ++ ((run calls).1.call call).2) := by
  simp [run, List.foldl_append]

theorem call_handles (s : Subscriptions ι) (call : ChannelCall ι) :
    (s.call call).1.handles = s.handles ++ call.subscribed?.toList := by
  cases call <;> simp [Subscriptions.call, subscribed?]

theorem run_handles (calls : List (ChannelCall ι)) : (run calls).1.handles = given calls := by
  induction calls using List.reverseRecOn with
  | nil => rfl
  | append_singleton calls call ih =>
    rw [run_concat, call_handles, ih]
    unfold given
    rw [List.filterMap_append]
    cases h : call.subscribed? <;> simp [h]

/-- A call takes listeners off or puts a new one at the end. -/
theorem call_listeners {s : Subscriptions ι} (hs : s.channel.listeners.Nodup) (call : ChannelCall ι) :
    (s.call call).1.channel.listeners.Sublist s.channel.listeners ∨
    ∃ l, call = .subscribe l ∧ l ∉ s.channel.listeners ∧
      (s.call call).1.channel.listeners = s.channel.listeners ++ [l] := by
  cases call with
  | subscribe l =>
    have heq : (s.call (.subscribe l)).1.channel.listeners = _ := s.channel.subscribe_listeners l
    rw [heq]
    by_cases hl : l ∈ s.channel.listeners
    · rw [if_pos hl]
      exact Or.inl (List.Sublist.refl _)
    · rw [if_neg hl]
      exact Or.inr ⟨l, rfl, hl, rfl⟩
  | cancel handle =>
    left
    simp only [Subscriptions.call]
    cases s.handles[handle]? with
    | some l => exact List.filter_sublist
    | none => exact List.Sublist.refl _
  | emit chunk =>
    left
    simp only [Subscriptions.call, Channel.emit_eq hs]
    exact List.filter_sublist
  | send input => exact Or.inl (List.Sublist.refl _)

theorem mem_call_listeners {s : Subscriptions ι} (hs : s.channel.listeners.Nodup) (call : ChannelCall ι)
    (l : Listener ι) : l ∈ (s.call call).1.channel.listeners ↔
      (l ∈ s.channel.listeners ∧ ¬ call.TakesOff s.handles l) ∨ call = .subscribe l := by
  cases call with
  | subscribe l' =>
    have heq : (s.call (.subscribe l')).1.channel.listeners = _ := s.channel.subscribe_listeners l'
    rw [heq]
    by_cases hl' : l' ∈ s.channel.listeners
    · rw [if_pos hl']
      constructor
      · exact fun hl => Or.inl ⟨hl, id⟩
      · rintro (⟨hl, -⟩ | hcall)
        · exact hl
        · cases hcall
          exact hl'
    · simp [hl', TakesOff, eq_comm (a := l)]
  | cancel handle =>
    cases h : s.handles[handle]? with
    | some l' => simp [Subscriptions.call, Channel.unsubscribe, TakesOff, h, eq_comm (a := l)]
    | none => simp [Subscriptions.call, TakesOff, h]
  | emit chunk => simp [Subscriptions.call, Channel.emit_eq hs, TakesOff]
  | send input => simp [Subscriptions.call, Channel.send, TakesOff]

/-! ## The roll of a run -/

theorem call_isRoll {s : Subscriptions ι} {calls : List (ChannelCall ι)} (hhandles : s.handles = given calls)
    (h : IsRoll calls s.channel.listeners) (call : ChannelCall ι) :
    IsRoll (calls ++ [call]) (s.call call).1.channel.listeners := by
  have hold {l : Listener ι} {i : Nat} (hl : l ∈ s.channel.listeners) (hi : Since (calls ++ [call]) l i) :
      Since calls l i := by
    rcases since_concat.mp hi with ⟨hi, -⟩ | ⟨-, -, hnone⟩
    · exact hi
    · obtain ⟨k, hk⟩ := (h.mem_iff l).mp hl
      exact absurd hk (hnone k)
  have hinOrder : s.channel.listeners.Pairwise fun l l' => ∀ i i', Since (calls ++ [call]) l i →
      Since (calls ++ [call]) l' i' → i < i' := by
    refine h.inOrder.imp_of_mem ?_
    intro l l' hl hl' hlt i i' hi hi'
    exact hlt i i' (hold hl hi) (hold hl' hi')
  refine ⟨?_, ?_, ?_⟩
  · rcases call_listeners h.nodup call with hsub | ⟨l, -, hl, heq⟩
    · exact h.nodup.sublist hsub
    · rw [heq, ← List.concat_eq_append]
      exact h.nodup.concat hl
  · intro l
    rw [mem_call_listeners h.nodup, h.mem_iff, hhandles]
    constructor
    · rintro (⟨⟨i, hi⟩, htakes⟩ | rfl)
      · exact ⟨i, since_concat.mpr (Or.inl ⟨hi, htakes⟩)⟩
      · by_cases hlistens : ∃ i, Since calls l i
        · obtain ⟨i, hi⟩ := hlistens
          exact ⟨i, since_concat.mpr (Or.inl ⟨hi, id⟩)⟩
        · exact ⟨calls.length, since_concat.mpr (Or.inr ⟨rfl, rfl, not_exists.mp hlistens⟩)⟩
    · rintro ⟨i, hi⟩
      rcases since_concat.mp hi with ⟨hi, htakes⟩ | ⟨-, hcall, -⟩
      · exact Or.inl ⟨⟨i, hi⟩, htakes⟩
      · exact Or.inr hcall
  · rcases call_listeners h.nodup call with hsub | ⟨l, -, hl, heq⟩
    · exact hinOrder.sublist hsub
    · rw [heq, List.pairwise_append]
      refine ⟨hinOrder, List.pairwise_singleton _ l, ?_⟩
      intro l' hl' x hx i i' hi hi'
      rw [List.mem_singleton.mp hx] at hi'
      -- a listener from before joined at one of `calls`, the new one behind them
      have hlt := (hold hl' hi).lt_length
      rcases since_concat.mp hi' with ⟨hi', -⟩ | ⟨rfl, -, -⟩
      · exact absurd ((h.mem_iff l).mpr ⟨i', hi'⟩) hl
      · exact hlt

theorem run_isRoll (calls : List (ChannelCall ι)) : IsRoll calls (run calls).1.channel.listeners := by
  induction calls using List.reverseRecOn with
  | nil =>
    refine ⟨List.nodup_nil, ?_, List.Pairwise.nil⟩
    intro l
    constructor
    · intro hl
      cases hl
    · rintro ⟨i, hi⟩
      cases hi.joins
  | append_singleton calls call ih =>
    rw [run_concat]
    exact call_isRoll (run_handles calls) ih call

/-! ## Handles -/

theorem run_cancels {l : Listener ι} {calls : List (ChannelCall ι)} : ∀ {used : List Nat}, used ≠ [] →
    (∀ handle ∈ used, (given calls)[handle]? = some l) →
      run (calls ++ used.map .cancel) =
        ({ (run calls).1 with channel := (run calls).1.channel.unsubscribe l }, (run calls).2) := by
  intro used
  induction used using List.reverseRecOn with
  | nil => exact fun h => absurd rfl h
  | append_singleton used handle ih =>
    intro _ hused
    have hhandle : (run calls).1.handles[handle]? = some l := by
      rw [run_handles]
      exact hused handle (by simp)
    rw [List.map_append, ← List.append_assoc, List.map_singleton, run_concat]
    by_cases hnil : used = []
    · simp [hnil, call, hhandle]
    · rw [ih hnil fun other hother => hused other (List.mem_append_left _ hother)]
      simp [call, hhandle, Channel.unsubscribe]

/-- **Chunks are delivered by the roll.**  After every run of calls the listeners are those whom nothing has taken off
since they subscribed, in order.  A chunk is delivered to each of them once and then those who listen once are gone.
No other call delivers anything.  The handles of a listener, used once or more, take off just that listener. -/
theorem delivery_follows_roll (calls : List (ChannelCall ι)) :
    let s := (run calls).1
    let delivered := (run calls).2
    IsRoll calls s.channel.listeners ∧
    (∀ chunk, run (calls ++ [.emit chunk]) =
      ({ s with channel := { s.channel with listeners := s.channel.listeners.filter (!·.once) } },
        delivered ++ s.channel.listeners.map fun l => (l.name, chunk))) ∧
    (∀ call, (∀ chunk, call ≠ .emit chunk) → (run (calls ++ [call])).2 = delivered) ∧
    ∀ l used, used ≠ [] → (∀ handle ∈ used, (given calls)[handle]? = some l) →
      run (calls ++ used.map .cancel) =
        ({ s with channel := { s.channel with listeners := s.channel.listeners.filter (· ≠ l) } }, delivered) := by
  intro s delivered
  have hroll := run_isRoll calls
  refine ⟨hroll, ?_, ?_, ?_⟩
  · intro chunk
    rw [run_concat]
    simp [call, Channel.emit_eq hroll.nodup, s, delivered]
  · intro call hcall
    rw [run_concat]
    cases call with
    | emit chunk => exact absurd rfl (hcall chunk)
    | _ => exact List.append_nil _
  · intro l used hused hhandles
    exact run_cancels hused hhandles

def comingBack : List (ChannelCall Nat) :=
  [.subscribe ⟨1, true⟩, .subscribe ⟨2, true⟩, .subscribe ⟨1, true⟩, .subscribe ⟨3, false⟩, .emit [0x61],
    .subscribe ⟨1, true⟩, .subscribe ⟨4, false⟩]

/-- The handles it had before take it off again. -/
theorem delivery_follows_roll_comingBack :
    (run comingBack).1.channel.listeners = [⟨3, false⟩, ⟨1, true⟩, ⟨4, false⟩] ∧
    (run (comingBack ++ [.emit [0x62]])).2 =
      [(1, [0x61]), (2, [0x61]), (3, [0x61]), (3, [0x62]), (1, [0x62]), (4, [0x62])] ∧
    (∀ handle ∈ [0, 2, 0], (given comingBack)[handle]? = some ⟨1, true⟩) ∧
    (run (comingBack ++ [0, 2, 0].map .cancel)).1.channel.listeners = [⟨3, false⟩, ⟨4, false⟩] := by
  obtain ⟨-, hemit, -, hcancels⟩ := delivery_follows_roll comingBack
  have hhandles : ∀ handle ∈ [0, 2, 0], (given comingBack)[handle]? = some ⟨1, true⟩ := by decide
  refine ⟨by decide, ?_, hhandles, ?_⟩
  · rw [hemit]
    decide
  · rw [hcancels _ _ (List.cons_ne_nil _ _) hhandles]
    decide

end Subscriptions

end Typeahead
