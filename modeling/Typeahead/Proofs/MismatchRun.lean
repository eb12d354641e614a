import Mathlib.Data.List.DropRight
import Typeahead.Proofs.CodePoints
import Typeahead.Proofs.EngineRun
import Typeahead.Proofs.EscapedText

/-!
# Mismatches over a run

A chunk leads to one mismatch or to none, and no other call leads to any.  The lines that are kept are those of
the mismatches since the log was last emptied, one for each, and the program's own log gets a line for every mismatch
of the run (`Engine.diagnostics_list_mismatches`).
-/

namespace Typeahead

open Text (ofString)

/-! ## Lines kept of mismatches -/

def MismatchLog.TellsMismatches (l : MismatchLog) : Prop := ∃ ms : List Mismatch, l.entries = ms.map Mismatch.entry

theorem MismatchLog.TellsMismatches.readable {l : MismatchLog} (h : l.TellsMismatches) :
    ∀ entry ∈ l.entries, entry.Readable := by
  obtain ⟨ms, hms⟩ := h
  intro entry hentry
  rw [hms] at hentry
  obtain ⟨m, -, rfl⟩ := List.mem_map.mp hentry
  exact m.entry_readable

theorem MismatchLog.TellsMismatches.lines_text {l : MismatchLog} (h : l.TellsMismatches) (hne : l.entries ≠ []) :
    l.text.lines = l.entries :=
  Text.lines_unlines hne fun entry hentry => (h.readable entry hentry).lineFeed_notMem

theorem Account.walk_mismatches_head (q : Text) (row : List Segment) :
    (walk q row).mismatches.head?.toList = (walk q row).mismatches := by
  rcases walk_mismatches q row with h | ⟨m, _, _, _, _, h⟩
  · rw [h]
    rfl
  · rw [h]
    rfl

/-! ## One call -/

def TimedCall.keepsLog {τ : Type} (t : TimedCall τ) : Bool :=
  match t.op with
  | .resetDiagnostics => false
  | _ => true

namespace Engine

variable {τ : Type} [ClockTime τ] (c : Classifier)

def mismatch? (e : Engine τ) (t : TimedCall τ) : Option Mismatch :=
  match t.op with
  | .write chunk => (Account.walk e.pending (c.segments chunk)).mismatches.head?
  | _ => none

theorem typeKeys_mismatches (now : τ) : ∀ (keys : List Text) (e : Engine τ),
    (e.typeKeys now keys).1.mismatches = e.mismatches
  | [], _ => rfl
  | key :: rest, e => by
    have hkey : (e.echo now key).1.mismatches = e.mismatches := by rw [echo_eq]
    exact (typeKeys_mismatches now rest _).trans hkey

theorem typeKeys_log (now : τ) : ∀ (keys : List Text) (e : Engine τ), (e.typeKeys now keys).2.log = []
  | [], _ => rfl
  | key :: rest, e => by
    have hkey : (e.echo now key).2.log = [] := by rw [echo_eq]
    rw [typeKeys, Effect.append_log, hkey, typeKeys_log now rest]
    rfl

theorem call_entries (e : Engine τ) (t : TimedCall τ) : (e.call c t.now t.op).2.1.mismatches.entries =
    (if t.keepsLog then e.mismatches.entries else []) ++ (e.mismatch? c t).toList.map Mismatch.entry := by
  obtain ⟨now, op⟩ := t
  cases op with
  | echo input => simp [call, TimedCall.keepsLog, mismatch?, echo_eq]
  | type input => simp [call, TimedCall.keepsLog, mismatch?, typeKeys_mismatches]
  | write chunk =>
    simp [call, TimedCall.keepsLog, mismatch?, (e.write_settles c chunk).engine, Account.walk_mismatches_head]
  | pause | resume | isPaused | clear | isEmpty | pending | diagnostics | resetDiagnostics | entryCount =>
    simp [call, TimedCall.keepsLog, mismatch?, pause, resume, isPaused, clear, resetDiagnostics, MismatchLog.empty]

theorem call_log (e : Engine τ) (t : TimedCall τ) : (e.call c t.now t.op).2.2.log =
    (e.mismatch? c t).toList.map fun m => MismatchLog.notice m.entry := by
  obtain ⟨now, op⟩ := t
  cases op with
  | echo input => simp [call, mismatch?, echo_eq]
  | type input => simp [call, mismatch?, typeKeys_log]
  | write chunk => simp [call, mismatch?, (e.write_settles c chunk).log, Account.walk_mismatches_head]
  | pause | resume | isPaused | clear | isEmpty | pending | diagnostics | resetDiagnostics | entryCount => rfl

/-! ## Over a run -/

def found (e : Engine τ) : List (TimedCall τ) → List Mismatch
  | [] => []
  | t :: rest => (e.mismatch? c t).toList ++ (e.call c t.now t.op).2.1.found rest

/-- The mismatches of a run of a fresh engine after its log was last emptied. -/
def foundSinceReset (calls : List (TimedCall τ)) : List Mismatch :=
  ((fresh : Engine τ).run c (calls.rdropWhile TimedCall.keepsLog)).1.found c (calls.rtakeWhile TimedCall.keepsLog)

theorem run_log : ∀ (calls : List (TimedCall τ)) (e : Engine τ),
    (e.run c calls).2.log = (e.found c calls).map fun m => MismatchLog.notice m.entry
  | [], _ => rfl
  | t :: rest, e => by
    simp only [run_cons, Effect.append_log, call_log, run_log rest, found, List.map_append]

theorem run_entries : ∀ {calls : List (TimedCall τ)} (e : Engine τ), (∀ t ∈ calls, t.keepsLog = true) →
    (e.run c calls).1.mismatches.entries = e.mismatches.entries ++ (e.found c calls).map Mismatch.entry
  | [], e, _ => by simp [run, found]
  | t :: rest, e, h => by
    obtain ⟨ht, hrest⟩ := List.forall_mem_cons.mp h
    simp only [run_cons, run_entries _ hrest, call_entries, ht, if_true, found, List.map_append,
      List.append_assoc]

theorem run_entries_of_reset {done : List (TimedCall τ)} {t : TimedCall τ} (h : t.keepsLog = false) (e : Engine τ) :
    (e.run c (done ++ [t])).1.mismatches.entries = [] := by
  rw [run_snoc, call_entries, h]
  unfold TimedCall.keepsLog at h
  split at h
  · rename_i hop
    simp [mismatch?, hop]
  · cases h

theorem fresh_run_entries (calls : List (TimedCall τ)) :
    ((fresh : Engine τ).run c calls).1.mismatches.entries = (foundSinceReset c calls).map Mismatch.entry := by
  have hsplit : calls.rdropWhile TimedCall.keepsLog ++ calls.rtakeWhile TimedCall.keepsLog = calls :=
    List.rdropWhile_append_rtakeWhile
  have hsince : ∀ t ∈ calls.rtakeWhile TimedCall.keepsLog, t.keepsLog = true := by
    intro t ht
    exact List.mem_rtakeWhile_imp ht
  -- what came before ends with a reset, unless nothing did
  have hempty : ((fresh : Engine τ).run c (calls.rdropWhile TimedCall.keepsLog)).1.mismatches.entries = [] := by
    rcases List.eq_nil_or_concat (calls.rdropWhile TimedCall.keepsLog) with hnil | ⟨done, t, hdone⟩
    · rw [hnil]
      rfl
    · rw [List.concat_eq_append] at hdone
      have hlast := List.rdropWhile_last_not TimedCall.keepsLog calls (by simp [hdone])
      have ht : t.keepsLog = false := by simpa [hdone] using hlast
      rw [hdone]
      exact run_entries_of_reset c ht _
  calc ((fresh : Engine τ).run c calls).1.mismatches.entries
      = (((fresh : Engine τ).run c (calls.rdropWhile TimedCall.keepsLog)).1.run c
          (calls.rtakeWhile TimedCall.keepsLog)).1.mismatches.entries := by
        rw [← congrArg Prod.fst (run_append c fresh _ _), hsplit]
    _ = (foundSinceReset c calls).map Mismatch.entry := by
        rw [run_entries c _ hsince, hempty, List.nil_append]
        rfl

theorem run_tellsMismatches (calls : List (TimedCall τ)) :
    ((fresh : Engine τ).run c calls).1.mismatches.TellsMismatches := ⟨_, fresh_run_entries c calls⟩

/-- **The log of mismatches has one line for each mismatch.**  After every run its text is empty if no chunk since the
last reset led to a mismatch, and otherwise its lines are those of the mismatches since then, in order.  No call but a
reset takes a line away.  The program's own log has a line for each mismatch of the whole run, in order. -/
theorem diagnostics_list_mismatches (calls : List (TimedCall τ)) :
    let r := (fresh : Engine τ).run c calls
    let since := foundSinceReset c calls
    (since = [] ∧ r.1.diagnostics = [] ∨ since ≠ [] ∧ r.1.diagnostics.lines = since.map Mismatch.entry) ∧
    (∀ (e : Engine τ) (t : TimedCall τ), t.keepsLog = true →
      e.mismatches.entries <+: (e.call c t.now t.op).2.1.mismatches.entries) ∧
    r.2.log = ((fresh : Engine τ).found c calls).map fun m => ofString "[local-echo] " ++ m.entry := by
  intro r since
  have hentries : r.1.mismatches.entries = since.map Mismatch.entry := fresh_run_entries c calls
  refine ⟨?_, ?_, run_log c calls fresh⟩
  · by_cases hnil : since = []
    · rw [hnil] at hentries
      exact Or.inl ⟨hnil, by rw [diagnostics, MismatchLog.text, hentries]; rfl⟩
    · have hne : r.1.mismatches.entries ≠ [] := by
        rw [hentries]
        exact fun h => hnil (List.map_eq_nil_iff.mp h)
      have hlines := (run_tellsMismatches c calls).lines_text hne
      exact Or.inr ⟨hnil, hlines.trans hentries⟩
  · intro e t ht
    rw [call_entries, if_pos ht]
    exact List.prefix_append _ _

end Engine

end Typeahead
