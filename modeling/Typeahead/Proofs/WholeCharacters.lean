import Typeahead.Proofs.DisplayControls
import Typeahead.Proofs.GrammarForms
import Typeahead.Proofs.Provenance

/-!
# Fragments hold whole characters

A chunk is cut at units: where a control span begins and ends, and behind the keys that it confirms.  Every match of
the control grammar begins and ends with a unit that is no surrogate, and no key is one, so none of these cuts parts
the two units of a character (`Engine.write_keeps_characters`).
-/

namespace Typeahead

/-! ## Text cut at units that are no surrogates -/

namespace Text

def BeginsWhole (t : Text) : Prop := ∃ u, t.head? = some u ∧ u.isSurrogate = false

def EndsWhole (t : Text) : Prop := ∃ u, t.getLast? = some u ∧ u.isSurrogate = false

theorem EndsWhole.prepend {t : Text} (h : t.EndsWhole) (a : Text) : EndsWhole (a ++ t) := by
  obtain ⟨u, hlast, hu⟩ := h
  refine ⟨u, ?_, hu⟩
  rw [List.getLast?_append, hlast]
  rfl

theorem EndsWhole.of_units {t : Text} (hne : t ≠ []) (h : ∀ u ∈ t, u.isSurrogate = false) : t.EndsWhole :=
  ⟨t.getLast hne, List.getLast?_eq_some_getLast hne, h _ (List.getLast_mem hne)⟩

theorem WellFormed.split_piece {a v b : Text} (h : WellFormed (a ++ (v ++ b))) (hbegins : v.BeginsWhole)
    (hends : v.EndsWhole) : WellFormed a ∧ WellFormed v ∧ WellFormed b := by
  obtain ⟨u, hhead, hu⟩ := hbegins
  obtain ⟨rest, rfl⟩ := List.head?_eq_some_iff.mp hhead
  obtain ⟨w, hlast, hw⟩ := hends
  obtain ⟨before, hbefore⟩ := List.getLast?_eq_some_iff.mp hlast
  obtain ⟨ha, hrest⟩ := h.split rfl hu
  have hpiece : WellFormed (u :: rest ++ b) := .unit hu hrest
  rw [hbefore, List.append_assoc] at hpiece
  obtain ⟨hv, hb⟩ := hpiece.split rfl hw
  refine ⟨ha, ?_, hb⟩
  rw [hbefore]
  exact hv.append (.unit hw .nil)

theorem WellFormed.of_append_units {a b : Text} (h : WellFormed (a ++ b)) (ha : ∀ u ∈ a, u.isSurrogate = false) :
    WellFormed b := by
  rcases List.eq_nil_or_concat a with rfl | ⟨before, u, rfl⟩
  · exact h
  · have hu : u.isSurrogate = false := ha u (by simp)
    rw [List.concat_eq_append, List.append_assoc] at h
    exact (h.split rfl hu).2

end Text

/-! ## Matches of the control grammar -/

namespace Control

open Text (EndsWhole)

structure ClosesWhole (f : Text → Option Nat) : Prop where
  endsWhole : ∀ {t : Text} {n : Nat}, f t = some n → EndsWhole (t.take n)

namespace ClosesWhole

variable {f g next : Text → Option Nat} {p : CodeUnit → Bool}

theorem unit (h : ∀ u, p u = true → u.isSurrogate = false) : ClosesWhole (unit? p) := by
  constructor
  intro t n ht
  cases t with
  | nil => cases ht
  | cons u t =>
    simp only [unit?, Option.ite_none_right_eq_some, Option.some.injEq] at ht
    obtain ⟨hu, rfl⟩ := ht
    exact ⟨u, rfl, h u hu⟩

theorem orElse (hf : ClosesWhole f) (hg : ClosesWhole g) : ClosesWhole fun t => f t <|> g t := by
  constructor
  intro t n ht
  cases h : f t with
  | some m =>
    obtain rfl : m = n := by simpa [h] using ht
    exact hf.endsWhole h
  | none => exact hg.endsWhole (by simpa [h] using ht)

/-- A match that stands behind other units. -/
theorem behind (hf : ClosesWhole f) (a : Text) {t : Text} {k n : Nat} (hk : k = a.length)
    (h : (f t).map (k + ·) = some n) : EndsWhole ((a ++ t).take n) := by
  obtain ⟨m, hm, rfl⟩ := Option.map_eq_some_iff.mp h
  rw [hk, List.take_length_add_append]
  exact (hf.endsWhole hm).prepend a

theorem unitThen (h : ClosesWhole next) : ClosesWhole (unitThen p next) := by
  constructor
  intro t n ht
  cases t with
  | nil => cases ht
  | cons u t => exact h.behind [u] rfl (Option.ite_none_right_eq_some.mp ht).2

theorem introduced {opens opensC1 : CodeUnit → Bool} (h : ClosesWhole next) :
    ClosesWhole (introduced opens opensC1 next) := h.unitThen.unitThen.orElse h.unitThen

/-- Units with a match behind them, or with none. -/
theorem perhaps_behind (hf : ClosesWhole f) {a : Text} (ha : a.EndsWhole) (t : Text) {k : Nat} (hk : k = a.length) :
    EndsWhole ((a ++ t).take (k + (f t).getD 0)) := by
  rw [hk, List.take_length_add_append]
  cases h : f t with
  | some m => exact (hf.endsWhole h).prepend a
  | none => simpa using ha

theorem runThen (h : ClosesWhole next) : ClosesWhole (runThen p next) := by
  constructor
  intro t n ht
  rw [← List.takeWhile_append_dropWhile (p := p) (l := t)]
  exact h.behind _ rfl ht

end ClosesWhole

theorem terminator?_closesWhole : ClosesWhole terminator? := by
  constructor
  intro t n h
  unfold terminator? at h
  split at h
  · obtain rfl := Option.some.inj h
    exact ⟨0x5C, rfl, rfl⟩
  · obtain rfl := Option.some.inj h
    exact ⟨0x9C, rfl, rfl⟩
  · cases h

theorem bellOrTerminator?_closesWhole : ClosesWhole bellOrTerminator? := by
  constructor
  intro t n h
  unfold bellOrTerminator? at h
  split at h
  · obtain rfl := Option.some.inj h
    exact ⟨0x07, rfl, rfl⟩
  · exact terminator?_closesWhole.endsWhole h

theorem isHexDigit_lt {u : CodeUnit} (h : u.isHexDigit = true) : u.toNat < 0x80 := by
  unfold CodeUnit.isHexDigit CodeUnit.digitValue? at h
  simp only [Bool.and_eq_true, decide_eq_true_eq, UInt16.le_iff_toNat_le, UInt16.reduceToNat] at h
  split at h
  · omega
  split at h
  · omega
  split at h
  · omega
  · cases h

theorem palette?_closesWhole : ClosesWhole palette? := by
  constructor
  intro t n h
  unfold palette? at h
  split at h
  · rename_i rest
    split at h
    · rename_i hdigits
      obtain rfl := Option.some.inj h
      simp only [Bool.and_eq_true, beq_iff_eq, List.all_eq_true] at hdigits
      obtain ⟨hlen, hhex⟩ := hdigits
      have hends : EndsWhole ([0x1B, 0x5D, 0x50] ++ rest.take 7) := by
        apply EndsWhole.prepend
        apply EndsWhole.of_units
        · intro hnil
          simp [hnil] at hlen
        · intro u hu
          exact CodeUnit.isSurrogate_of_lt (isHexDigit_lt (hhex u hu))
      have hwhole := bellOrTerminator?_closesWhole.perhaps_behind hends (rest.drop 7) (k := 10) (by simp [hlen])
      rwa [List.append_assoc, List.take_append_drop] at hwhole
    · cases h
  · rename_i rest
    obtain rfl := Option.some.inj h
    have hends : EndsWhole [0x1B, 0x5D, 0x52] := ⟨0x52, rfl, rfl⟩
    exact bellOrTerminator?_closesWhole.perhaps_behind hends rest rfl
  · cases h

theorem systemCommand?_closesWhole : ClosesWhole systemCommand? := by
  have hcommand : ClosesWhole commandText? := bellOrTerminator?_closesWhole.runThen
  exact systemCommand?_eq ▸ hcommand.introduced

theorem controlString?_closesWhole : ClosesWhole controlString? := by
  have hstring : ClosesWhole stringText? := terminator?_closesWhole.runThen
  exact controlString?_eq ▸ hstring.introduced

theorem controlSequence?_closesWhole : ClosesWhole controlSequence? := by
  have hfinal : ClosesWhole (unit? isFinal) := by
    apply ClosesWhole.unit
    intro u hu
    simp only [isFinal, Bool.and_eq_true, decide_eq_true_eq, UInt16.le_iff_toNat_le, UInt16.reduceToNat] at hu
    exact CodeUnit.isSurrogate_of_lt (by omega)
  have hbody : ClosesWhole sequenceBody? := hfinal.runThen.runThen
  exact controlSequence?_eq ▸ hbody.introduced

theorem escapeSequence?_closesWhole : ClosesWhole escapeSequence? := by
  have hlong : ClosesWhole (unit? isLongFinal) := by
    apply ClosesWhole.unit
    intro u hu
    simp only [isLongFinal, Bool.and_eq_true, decide_eq_true_eq, UInt16.le_iff_toNat_le, UInt16.reduceToNat] at hu
    exact CodeUnit.isSurrogate_of_lt (by omega)
  have hshort : ClosesWhole (unit? isShortFinal) := by
    apply ClosesWhole.unit
    intro u hu
    simp [isShortFinal, UInt16.le_iff_toNat_le, ← UInt16.toNat_inj] at hu
    exact CodeUnit.isSurrogate_of_lt (by omega)
  rw [escapeSequence?_eq]
  exact (hlong.runThen.unitThen.orElse hshort).unitThen

theorem isSingle_lt {u : CodeUnit} (h : isSingle u = true) : u.toNat < 0x80 := by
  simp only [isSingle, Bool.or_eq_true, beq_iff_eq] at h
  rcases h with (((rfl | rfl) | rfl) | rfl) | rfl <;> decide

theorem length?_closesWhole : ClosesWhole length? := by
  have hsingle : ClosesWhole single? := by
    apply ClosesWhole.unit
    intro u hu
    exact CodeUnit.isSurrogate_of_lt (isSingle_lt hu)
  exact palette?_closesWhole.orElse (systemCommand?_closesWhole.orElse (controlString?_closesWhole.orElse
    (controlSequence?_closesWhole.orElse (escapeSequence?_closesWhole.orElse hsingle))))

theorem isSurrogate_of_length? {u : CodeUnit} {t : Text} {n : Nat} (h : length? (u :: t) = some n) :
    u.isSurrogate = false := by
  rw [u.isSurrogate_eq_false_iff]
  cases hopens : opens u with
  | true =>
    rcases opens_cases hopens with rfl | hC1
    · decide
    · simp [isC1, UInt16.le_iff_toNat_le] at hC1
      omega
  | false =>
    rw [length?_of_not_opens hopens] at h
    split at h
    · rename_i hsingle
      have hlt := isSingle_lt hsingle
      omega
    · cases h

end Control

/-! ## Chunks cut at their control spans -/

structure Cut.Whole (c : Cut) : Prop where
  pieces : ∀ p ∈ c.pieces, p.literal.WellFormed ∧ p.control.WellFormed
  tail : c.tail.WellFormed

theorem Cut.Whole.join {c : Cut} (h : c.Whole) : c.join.WellFormed := by
  unfold Cut.join
  rw [List.flatMap_def]
  apply Text.WellFormed.append _ h.tail
  apply Text.WellFormed.flatten
  intro t ht
  obtain ⟨p, hp, rfl⟩ := List.mem_map.mp ht
  exact (h.pieces p hp).1.append (h.pieces p hp).2

namespace Classifier

theorem cutAt_whole {text : Text} : ∀ {start : Nat} {spans : List Span}, Span.Chain text start spans →
    (∀ s ∈ spans, s.value.BeginsWhole ∧ s.value.EndsWhole) → Text.WellFormed (text.drop start) →
    (cutAt text start spans).Whole
  | _, [], _, _, h => ⟨List.forall_mem_nil _, h⟩
  | start, s :: rest, ⟨hs, hchain⟩, hspans, h => by
    obtain ⟨⟨hbegins, hends⟩, hrest⟩ := List.forall_mem_cons.mp hspans
    rw [← hs.take_append] at h
    obtain ⟨hliteral, hcontrol, hlater⟩ := h.split_piece hbegins hends
    have ih := cutAt_whole hchain hrest hlater
    exact ⟨List.forall_mem_cons.mpr ⟨⟨hliteral, hcontrol⟩, ih.pieces⟩, ih.tail⟩

theorem standard_cut_whole {t : Text} (h : t.WellFormed) : (standard.cut t).Whole := by
  refine cutAt_whole (standard.spansFrom_chain t 0) ?_ h
  intro s hs
  obtain ⟨u, rest, n, -, hmatch, hvalue⟩ := Pattern.match_of_mem_spans Control.length?_ne_zero hs
  rw [hvalue]
  exact ⟨⟨u, rfl, Control.isSurrogate_of_length? hmatch⟩, Control.length?_closesWhole.endsWhole hmatch⟩

end Classifier

/-! ## What is shown of them -/

namespace Engine

section
variable {τ : Type}

theorem confirm_pending_suffix (e : Engine τ) (t : Text) : (e.confirm t).2.1.pending <:+ e.pending := by
  rw [(e.confirm_settles t).pending]
  exact Account.step_queue_suffix e.pending (.literal t)

theorem passControl_pending_suffix (e : Engine τ) (t : Text) : (e.passControl t).1.pending <:+ e.pending := by
  rw [(e.passControl_settles t).pending]
  exact Account.step_queue_suffix e.pending (.control t)

theorem eq_of_mem_passControl_writes {e : Engine τ} {t w : Text} (hw : w ∈ (e.passControl t).2.writes) : w = t := by
  unfold passControl at hw
  split at hw
  · split at hw
    · simpa [Effect.write] using hw
    · dsimp only at hw
      split at hw <;> simpa [Effect.write] using hw
  · simpa [Effect.write] using hw

theorem confirm_writes_wellFormed {e : Engine τ} {t : Text} (he : ∀ u ∈ e.pending, u.isSurrogate = false)
    (ht : t.WellFormed) : ∀ w ∈ (e.confirm t).2.2.writes, w.WellFormed := by
  intro w hw
  rcases e.confirm_cases t with ⟨-, hc⟩ | ⟨-, ⟨later, rfl⟩, hc⟩ | ⟨-, hc⟩
  · simp [hc, Effect.none] at hw
  · -- what is shown stands behind keys
    have hlater : w = later := by simpa [hc, Effect.write] using hw
    rw [hlater]
    exact ht.of_append_units he
  · have hall : w = t := by simpa [hc, Effect.write, Effect.logLine] using hw
    rwa [hall]

theorem reconcile_writes_wellFormed (tail : Text) : ∀ {pieces : List Piece} {e : Engine τ},
    (∀ u ∈ e.pending, u.isSurrogate = false) → Cut.Whole ⟨pieces, tail⟩ →
    ∀ w ∈ (e.reconcile pieces tail).2.writes, w.WellFormed
  | [], e, he, hcut => confirm_writes_wellFormed he hcut.tail
  | p :: rest, e, he, hcut => by
    obtain ⟨⟨hliteral, hcontrol⟩, hpieces⟩ := List.forall_mem_cons.mp hcut.pieces
    have hrest : Cut.Whole ⟨rest, tail⟩ := ⟨hpieces, hcut.tail⟩
    -- from the control span on, in any state whose keys are no surrogates
    have hgoes {e : Engine τ} (he : ∀ u ∈ e.pending, u.isSurrogate = false) :
        ∀ w ∈ ((e.passControl p.control).2 ++ ((e.passControl p.control).1.reconcile rest tail).2).writes,
          w.WellFormed := by
      intro w hw
      rcases List.mem_append.mp hw with hw | hw
      · rwa [eq_of_mem_passControl_writes hw]
      · refine reconcile_writes_wellFormed tail ?_ hrest w hw
        intro u hu
        exact he u ((e.passControl_pending_suffix p.control).subset hu)
    have hconfirm := confirm_writes_wellFormed he hliteral
    have hsuffix := e.confirm_pending_suffix p.literal
    intro w hw
    rw [reconcile] at hw
    split at hw
    · exact hgoes he w hw
    · split at hw
      · rename_i e' first h
        rw [h] at hconfirm
        rcases List.mem_append.mp hw with hw | hw
        · exact hconfirm w hw
        · rw [List.mem_singleton.mp hw]
          exact hcontrol.append hrest.join
      · rename_i n e' first h
        rw [h] at hconfirm hsuffix
        have hw : w ∈ (first ++ (e'.passControl p.control).2 ++
            ((e'.passControl p.control).1.reconcile rest tail).2).writes := hw
        rw [Effect.append_assoc] at hw
        rcases List.mem_append.mp hw with hw | hw
        · exact hconfirm w hw
        · exact hgoes (fun u hu => he u (hsuffix.subset hu)) w hw

theorem write_writes_wellFormed {e : Engine τ} (he : ∀ u ∈ e.pending, 0x20 ≤ u.toNat ∧ u.toNat ≤ 0x7E ∨ u.toNat = 0x08)
    {chunk : Text} (h : chunk.WellFormed) : ∀ w ∈ (e.write .standard chunk).2.writes, w.WellFormed := by
  refine reconcile_writes_wellFormed _ ?_ (Classifier.standard_cut_whole h)
  intro u hu
  have hkey := he u hu
  exact CodeUnit.isSurrogate_of_lt (by omega)

end

/-- **Fragments hold whole characters.**  After every run of an engine, and after every run of a session, a chunk in
which no surrogate stands alone is shown in fragments of which the same holds. -/
theorem write_keeps_characters {τ : Type} [ClockTime τ] (c : Classifier) {chunk : Text} (h : chunk.WellFormed) :
    (∀ calls : List (TimedCall τ),
      ∀ w ∈ (((fresh : Engine τ).run c calls).1.write .standard chunk).2.writes, w.WellFormed) ∧
    ∀ config clock remote run,
      let k := ((Console.start config clock).turns c remote run).1
      ∀ w ∈ (k.session.engine.write .standard chunk).2.writes, w.WellFormed := by
  constructor
  · intro calls
    exact write_writes_wellFormed (fresh_run_pending c calls).2 h
  · intro config clock remote run k
    have hengine : k.session.engine = _ := Console.start_turns_engine c config clock remote run
    rw [hengine]
    exact write_writes_wellFormed (fresh_run_pending c _).2 h

/-- Behind two keys that are confirmed around a title, a character stands on each side of a line feed. -/
theorem write_keeps_characters_around_title :
    let calls : List (TimedCall Binary64) := [⟨0, .echo [0x61]⟩, ⟨0, .echo [0x62]⟩]
    let smile : Text := [0xD83D, 0xDE00]
    let title : Text := [0x1B, 0x5D, 0x30, 0x3B] ++ smile ++ [0x07]
    let chunk : Text := [0x61] ++ title ++ [0x62] ++ smile ++ [0x0A] ++ smile
    let writes := (((fresh : Engine Binary64).run .standard calls).1.write .standard chunk).2.writes
    chunk.WellFormed ∧ writes = [title, smile, [0x0A], smile] ∧ ∀ w ∈ writes, w.WellFormed := by
  intro calls smile title chunk writes
  have hchunk : chunk.WellFormed := by decide
  have hwrites : writes = [title, smile, [0x0A], smile] := by decide +kernel
  exact ⟨hchunk, hwrites, (write_keeps_characters .standard hchunk).1 calls⟩

end Engine

end Typeahead
