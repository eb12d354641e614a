import Typeahead.Cli.Command
import Typeahead.Proofs.MismatchRun

/-!
# Raw reports

A raw report without colour is made of readable lines: the writes in their readable form, the lines that were
kept of mismatches, and the keys that were never confirmed.  So it does nothing to a terminal but end lines,
and its first lines are the writes, one line for each (`Replay.raw_report_lists_writes`).
-/

namespace Typeahead

open Text (ofString)

/-! ## Parts of a report -/

namespace Text

def LinesOnly (t : Text) : Prop := ∀ u ∈ t, u.isControl = true → u = Control.lineFeed

instance (t : Text) : Decidable t.LinesOnly :=
  List.decidableBAll (fun u : CodeUnit => u.isControl = true → u = Control.lineFeed) t

theorem Readable.linesOnly {t : Text} (h : t.Readable) : t.LinesOnly := by
  intro u hu hcontrol
  rw [h u hu] at hcontrol
  cases hcontrol

theorem LinesOnly.append {a b : Text} (ha : a.LinesOnly) (hb : b.LinesOnly) : (a ++ b).LinesOnly :=
  List.forall_mem_append.mpr ⟨ha, hb⟩

end Text

theorem Style.paint_false (s : Style) (t : Text) : s.paint false t = t := by
  simp [paint]

namespace Replay

theorem rawParts_readable (r : Replay) : ∀ part ∈ r.rawParts false, part.Readable := by
  intro part hpart
  obtain ⟨t, -, rfl⟩ := List.mem_map.mp hpart
  rw [Style.paint_false]
  exact Text.Readable.append (by decide) (Text.escaped_readable t)

theorem mismatchParts_linesOnly {r : Replay} {l : MismatchLog} (hl : l.TellsMismatches)
    (hr : r.diagnostics = l.text) : ∀ part ∈ r.mismatchParts false, part.LinesOnly := by
  intro part hpart
  unfold mismatchParts at hpart
  split at hpart
  · cases hpart
  · rename_i hsome
    have hne : l.entries ≠ [] := by
      intro hnil
      simp [hr, MismatchLog.text, hnil, Text.unlines, Text.join] at hsome
    rw [hr, hl.lines_text hne] at hpart
    rcases List.mem_cons.mp hpart with rfl | hpart
    · rw [Style.paint_false]
      decide
    · obtain ⟨entry, hentry, rfl⟩ := List.mem_map.mp hpart
      rw [Style.paint_false]
      apply Text.Readable.linesOnly
      exact Text.Readable.append (by decide) (hl.readable entry hentry)

theorem pendingParts_linesOnly (r : Replay) : ∀ part ∈ r.pendingParts false, part.LinesOnly := by
  intro part hpart
  unfold pendingParts at hpart
  split at hpart
  · cases hpart
  · rw [List.mem_singleton.mp hpart, Style.paint_false]
    apply Text.LinesOnly.append _ (by decide)
    apply Text.LinesOnly.append _ (Text.escaped_readable _).linesOnly
    apply Text.LinesOnly.append _ (by decide)
    apply Text.LinesOnly.append (by decide)
    exact (Text.digits_readable (by decide) (by decide) _).linesOnly

theorem run_tellsMismatches (steps : List SessionStep) (config : EchoConfig) :
    ∃ l : MismatchLog, l.TellsMismatches ∧ (run steps config).1.diagnostics = l.text := by
  rw [run_eq]
  refine ⟨_, ?_, rfl⟩
  rw [Console.turns_engine .standard _ (Console.start_wired config 0)]
  exact Engine.run_tellsMismatches _ _

/-- **A raw report is safe to look at and tells every write.**  Asked for raw and not for JSON, without colour,
what is printed of any replay has no control but line feeds, and its first lines are the writes in order, each
on one line in its readable form. -/
theorem raw_report_lists_writes (steps : List SessionStep) (config : EchoConfig) (a : Arguments)
    (hraw : (a.value? (ofString "raw")).any Value.isTrue = true)
    (hjson : (a.value? (ofString "json")).any Value.isTrue = false) :
    let r := (run steps config).1
    let printed := r.report (Command.reportForm a) false
    (∀ u ∈ printed, u.isControl = true → u = Control.lineFeed) ∧
      printed.lines.take r.writes.length = r.writes.map fun t => ofString "» " ++ t.escaped := by
  intro r printed
  have hform : Command.reportForm a = .raw := by simp [Command.reportForm, hraw, hjson]
  obtain ⟨l, hl, hdiagnostics⟩ := run_tellsMismatches steps config
  have hrest : ∀ part ∈ r.mismatchParts false ++ r.pendingParts false, part.LinesOnly := by
    intro part hpart
    rcases List.mem_append.mp hpart with hpart | hpart
    · exact mismatchParts_linesOnly hl hdiagnostics part hpart
    · exact r.pendingParts_linesOnly part hpart
  have hprinted : printed = (r.rawParts false).flatMap (· ++ [0x0A]) ++
      (r.mismatchParts false ++ r.pendingParts false).flatMap (· ++ [0x0A]) := by
    simp only [printed, report, hform, reportParts, List.append_assoc, List.flatMap_append]
  constructor
  · intro u hu
    rw [hprinted, ← List.flatMap_append] at hu
    obtain ⟨part, hpart, hu⟩ := List.mem_flatMap.mp hu
    have hlines : part.LinesOnly := by
      rcases List.mem_append.mp hpart with hpart | hpart
      · exact (r.rawParts_readable part hpart).linesOnly
      · exact hrest part hpart
    exact hlines.append (by decide) u hu
  · have hraw : ∀ part ∈ r.rawParts false, (0x0A : CodeUnit) ∉ part := fun part hpart =>
      (r.rawParts_readable part hpart).lineFeed_notMem
    rw [hprinted, Text.lines_flatMap_append hraw, List.take_left' (by simp [rawParts])]
    simp only [rawParts, Style.paint_false]

def hostileScript : List SessionStep :=
  [.type [0x61], .output [0x0A, 0x1B, 0x5B, 0x32, 0x4A, 0x9B], .type [0x62, 0x63]]

def rawArguments : Arguments :=
  Arguments.read Command.flags [ofString "replay", ofString "s.json", ofString "--raw"]

theorem raw_report_lists_writes_hostileScript :
    (rawArguments.value? (ofString "raw")).any Value.isTrue = true ∧
      (rawArguments.value? (ofString "json")).any Value.isTrue = false ∧
      (((run hostileScript .default).1.report (Command.reportForm rawArguments) false).lines.take 6) =
        [ofString "» a", ofString "» \\n", ofString "» \\33[2J", ofString "» \\233", ofString "» b",
          ofString "» c"] := by
  have hraw : (rawArguments.value? (ofString "raw")).any Value.isTrue = true := by decide +kernel
  have hjson : (rawArguments.value? (ofString "json")).any Value.isTrue = false := by decide +kernel
  have hwrites : (run hostileScript .default).1.writes =
      [[0x61], [0x0A], [0x1B, 0x5B, 0x32, 0x4A], [0x9B], [0x62], [0x63]] := by decide +kernel
  have hlines := (raw_report_lists_writes hostileScript .default rawArguments hraw hjson).2
  rw [hwrites] at hlines
  exact ⟨hraw, hjson, hlines.trans (by decide +kernel)⟩

end Replay

end Typeahead
