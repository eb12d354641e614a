import Typeahead.Log.Writer

/-!
# What becomes of log entries

Entries come at any time, and appends settle at any time, well or badly, once each.  What a writer knows of
the append under way is compared with the appends that have begun and not settled, which are the world's to
keep (`LogWriter.Appending`).  A run is any order of such steps.  Nothing is lost in it, repeated or put out
of order, and nothing is left behind (`LogWriter.entries_reach_log`).
-/

namespace Typeahead

/-! ## What events and actions tell -/

def LogEvent.entry? : LogEvent → Option Text
  | .entry t => some t
  | .settled _ => none

def LogEvent.failure? : LogEvent → Option Text
  | .entry _ => none
  | .settled failure => failure

def LogEvent.timing : LogEvent → LogEvent
  | .entry t => .entry t
  | .settled _ => .settled none

def LogAction.batch? : LogAction → Option (List Text)
  | .append batch => some batch
  | .report _ => none

def LogAction.report? : LogAction → Option Text
  | .append _ => none
  | .report failure => some failure

namespace LogWriter

def batches (actions : List LogAction) : List (List Text) := actions.filterMap LogAction.batch?

def reports (actions : List LogAction) : List Text := actions.filterMap LogAction.report?

theorem batches_append (a b : List LogAction) : batches (a ++ b) = batches a ++ batches b :=
  List.filterMap_append

theorem reports_append (a b : List LogAction) : reports (a ++ b) = reports a ++ reports b :=
  List.filterMap_append

theorem batches_of_failure (failure : Option Text) :
    batches (failure.map LogAction.report).toList = [] := by
  cases failure <;> rfl

theorem reports_of_failure (failure : Option Text) :
    reports (failure.map LogAction.report).toList = failure.toList := by
  cases failure <;> rfl

/-! ## Steps of a writer -/

/-- What starting a batch comes to: all that waits is in the batch or waits on, in order; nothing is reported;
the batch is the one under way; and if none is, nothing waits. -/
theorem start_spec (w : LogWriter) :
    (batches w.start.2).flatten ++ w.start.1.queue = w.queue ∧ reports w.start.2 = [] ∧
      w.start.1.inFlight.toList = w.inFlight.toList ++ batches w.start.2 ∧
      (w.start.1.inFlight = none → w.start.1.queue = []) := by
  obtain ⟨queue, inFlight⟩ := w
  cases inFlight with
  | some batch => simp [start, batches, reports]
  | none =>
    cases queue with
    | nil => simp [start, batches, reports]
    | cons t rest => simp [start, batches, reports, LogAction.batch?, LogAction.report?]

theorem settle_of_inFlight {w : LogWriter} {batch : List Text} (h : w.inFlight = some batch)
    (failure : Option Text) : w.settle failure =
      (({ w with inFlight := none } : LogWriter).start.1,
        (failure.map LogAction.report).toList ++ ({ w with inFlight := none } : LogWriter).start.2) := by
  unfold settle
  rw [h]

/-! ## Runs -/

structure Appending where
  writer : LogWriter
  begun : List (List Text)

/-- An entry may come at any time, and any append that has begun may settle, which it does once. -/
inductive Step : Appending → LogEvent → List LogAction → Appending → Prop
  | entry (s : Appending) (t : Text) :
      Step s (.entry t) (s.writer.log t).2 ⟨(s.writer.log t).1, s.begun ++ batches (s.writer.log t).2⟩
  | settled (s : Appending) (before after : List (List Text)) (batch : List Text) (failure : Option Text)
      (h : s.begun = before ++ batch :: after) :
      Step s (.settled failure) (s.writer.settle failure).2
        ⟨(s.writer.settle failure).1, before ++ after ++ batches (s.writer.settle failure).2⟩

inductive Run : List LogEvent → List LogAction → Appending → Prop
  | start : Run [] [] ⟨idle, []⟩
  | next {events : List LogEvent} {done now : List LogAction} {s s' : Appending} {e : LogEvent} :
      Run events done s → Step s e now s' → Run (events ++ [e]) (done ++ now) s'

/-- The writer's view of the append under way is right, its account of the entries is complete, it waits for
nothing else, and each failure has been reported. -/
structure Delivers (events : List LogEvent) (actions : List LogAction) (s : Appending) : Prop where
  begun : s.begun = s.writer.inFlight.toList
  entries : (batches actions).flatten ++ s.writer.queue = events.filterMap LogEvent.entry?
  idle : s.writer.inFlight = none → s.writer.queue = []
  reports : reports actions = events.filterMap LogEvent.failure?

theorem Delivers.length_le {events : List LogEvent} {actions : List LogAction} {s : Appending}
    (h : Delivers events actions s) : s.begun.length ≤ 1 := by
  rw [h.begun]
  cases s.writer.inFlight <;> simp

/-- Of at most one append, the one that settles is the one that the writer waits for. -/
theorem Delivers.settling {events : List LogEvent} {actions : List LogAction} {s : Appending}
    (h : Delivers events actions s) {before after : List (List Text)} {batch : List Text}
    (hs : s.begun = before ++ batch :: after) : s.writer.inFlight = some batch ∧ before = [] ∧ after = [] := by
  have hlen := h.length_le
  rw [hs] at hlen
  simp only [List.length_append, List.length_cons] at hlen
  obtain rfl : before = [] := List.length_eq_zero_iff.mp (by omega)
  obtain rfl : after = [] := List.length_eq_zero_iff.mp (by omega)
  have hb := h.begun
  rw [hs] at hb
  cases hf : s.writer.inFlight with
  | none => rw [hf] at hb; cases hb
  | some b =>
    rw [hf] at hb
    simp only [List.nil_append, Option.toList_some, List.cons.injEq, and_true] at hb
    exact ⟨by rw [hb], rfl, rfl⟩

theorem Delivers.step {events : List LogEvent} {done now : List LogAction} {s s' : Appending} {e : LogEvent}
    (h : Delivers events done s) (hstep : Step s e now s') : Delivers (events ++ [e]) (done ++ now) s' := by
  cases hstep with
  | entry t =>
    obtain ⟨hentries, hreports, hbegun, hidle⟩ :=
      start_spec ({ s.writer with queue := s.writer.queue ++ [t] } : LogWriter)
    refine ⟨?_, ?_, hidle, ?_⟩
    · exact (congrArg (· ++ _) h.begun).trans hbegun.symm
    · rw [batches_append, List.flatten_append, List.append_assoc, List.filterMap_append, ← h.entries,
        List.append_assoc]
      exact congrArg _ hentries
    · rw [reports_append, List.filterMap_append, h.reports]
      exact congrArg _ hreports
  | settled before after batch failure hs =>
    obtain ⟨hflight, rfl, rfl⟩ := h.settling hs
    obtain ⟨hentries, hreports, hbegun, hidle⟩ := start_spec ({ s.writer with inFlight := none } : LogWriter)
    rw [settle_of_inFlight hflight]
    refine ⟨?_, ?_, hidle, ?_⟩
    · rw [batches_append, batches_of_failure]
      exact hbegun.symm
    · rw [batches_append, batches_append, batches_of_failure, List.nil_append, List.flatten_append,
        List.append_assoc, hentries, List.filterMap_append, ← h.entries]
      exact (List.append_nil _).symm
    · rw [reports_append, reports_append, reports_of_failure, hreports, List.append_nil,
        List.filterMap_append, h.reports]
      cases failure <;> rfl

theorem Run.delivers {events : List LogEvent} {actions : List LogAction} {s : Appending}
    (h : Run events actions s) : Delivers events actions s := by
  induction h with
  | start => exact ⟨rfl, rfl, fun _ => rfl, rfl⟩
  | next _ hstep ih => exact ih.step hstep

/-! ## Outcomes -/

/-- The step that another outcome would have made: the same appends, and the same state after it. -/
theorem Step.of_timing {events : List LogEvent} {done now : List LogAction} {s s' : Appending} {e e' : LogEvent}
    (h : Step s e now s') (hs : Delivers events done s) (he : e'.timing = e.timing) :
    ∃ now', Step s e' now' s' ∧ batches now' = batches now := by
  cases h with
  | entry t =>
    cases e' with
    | settled _ => cases he
    | entry t' =>
      cases he
      exact ⟨_, .entry s t, rfl⟩
  | settled before after batch failure hb =>
    cases e' with
    | entry _ => cases he
    | settled failure' =>
      have hflight := (hs.settling hb).1
      have hstate : (s.writer.settle failure').1 = (s.writer.settle failure).1 := by
        rw [settle_of_inFlight hflight, settle_of_inFlight hflight]
      have hbatches : batches (s.writer.settle failure').2 = batches (s.writer.settle failure).2 := by
        rw [settle_of_inFlight hflight, settle_of_inFlight hflight, batches_append, batches_append,
          batches_of_failure, batches_of_failure]
      refine ⟨_, ?_, hbatches⟩
      have hstep := Step.settled s before after batch failure' hb
      rwa [hstate, hbatches] at hstep

theorem Run.of_timing {events : List LogEvent} {actions : List LogAction} {s : Appending}
    (h : Run events actions s) : ∀ {events' : List LogEvent},
      events'.map LogEvent.timing = events.map LogEvent.timing →
        ∃ actions', Run events' actions' s ∧ batches actions' = batches actions := by
  induction h with
  | start =>
    intro events' he
    obtain rfl := List.map_eq_nil_iff.mp he
    exact ⟨[], .start, rfl⟩
  | next hrun hstep ih =>
    intro events' he
    rw [List.map_append, List.map_singleton] at he
    obtain ⟨first, last, rfl, hfirst, hlast⟩ := List.map_eq_append_iff.mp he
    obtain ⟨e', rfl, he'⟩ := List.map_eq_singleton_iff.mp hlast
    obtain ⟨actions', hrun', hb⟩ := ih hfirst
    obtain ⟨now', hstep', hnow⟩ := hstep.of_timing hrun.delivers he'
    exact ⟨actions' ++ now', hrun'.next hstep', by rw [batches_append, batches_append, hb, hnow]⟩

/-- **Entries reach the log in order, each once.**  At every moment of every run at most one append is under
way; the batches of all appends begun, followed by the entries that wait, are the entries that came; nothing
waits unless an append is under way; and there is one report for each append that failed.  Had other appends
failed, or none, the same appends would have begun and the same would wait. -/
theorem entries_reach_log {events : List LogEvent} {actions : List LogAction} {s : Appending}
    (h : Run events actions s) :
    s.begun.length ≤ 1 ∧
      (batches actions).flatten ++ s.writer.queue = events.filterMap LogEvent.entry? ∧
      (s.begun = [] → s.writer.queue = []) ∧
      reports actions = events.filterMap LogEvent.failure? ∧
      ∀ events', events'.map LogEvent.timing = events.map LogEvent.timing →
        ∃ actions', Run events' actions' s ∧ batches actions' = batches actions := by
  have hd := h.delivers
  refine ⟨hd.length_le, hd.entries, fun hs => hd.idle ?_, hd.reports, fun _ he => h.of_timing he⟩
  have hbegun := hd.begun
  rw [hs] at hbegun
  exact Option.toList_eq_nil_iff.mp hbegun.symm

def failedStart : List LogEvent :=
  [.entry [0x61], .entry [0x62], .entry [0x63], .settled (some [0x45]), .entry [0x64]]

theorem run_failedStart : Run failedStart
    [.append [[0x61]], .report [0x45], .append [[0x62], [0x63]]]
    ⟨⟨[[0x64]], some [[0x62], [0x63]]⟩, [[[0x62], [0x63]]]⟩ := by
  have first := ((Run.start.next (.entry _ [0x61])).next (.entry _ [0x62])).next (.entry _ [0x63])
  exact (first.next (.settled _ [] [] [[0x61]] (some [0x45]) rfl)).next (.entry _ [0x64])

theorem entries_reach_log_failedStart :
    Run failedStart [.append [[0x61]], .report [0x45], .append [[0x62], [0x63]]]
        ⟨⟨[[0x64]], some [[0x62], [0x63]]⟩, [[[0x62], [0x63]]]⟩ ∧
      batches [.append [[0x61]], .report [0x45], .append [[0x62], [0x63]]] = [[[0x61]], [[0x62], [0x63]]] ∧
      ([[[0x61]], [[0x62], [0x63]]] : List (List Text)).flatten ++ [[0x64]] =
        failedStart.filterMap LogEvent.entry? ∧
      reports [.append [[0x61]], .report [0x45], .append [[0x62], [0x63]]] = [[0x45]] :=
  have h := entries_reach_log run_failedStart
  ⟨run_failedStart, rfl, h.2.1, h.2.2.2.1⟩

end LogWriter

end Typeahead
