import Typeahead.Log.File
import Typeahead.Proofs.Utf8RoundTrip
import Typeahead.Proofs.WrittenFile

/-!
# What a log file holds

The first entry of a run goes out by itself, and all that wait behind it go out together.  Each batch is appended
behind what the file holds, and a batch ends with a line feed, so in the end the bytes of all entries are there, in
order and each once (`LogFile.record_reads_entries`).
-/

namespace Typeahead

namespace Text

theorem codePoints_append_cons {u : CodeUnit} (hu : u.isSurrogate = false) (b : Text) : ∀ a : Text,
    codePoints (a ++ u :: b) = codePoints a ++ [u] :: codePoints b
  | [] => codePoints_cons (CodeUnit.isHighSurrogate_of_not_isSurrogate hu) b
  | [v] => by
    have hlow : u.isLowSurrogate = false := by
      simp only [CodeUnit.isSurrogate, Bool.or_eq_false_iff] at hu
      exact hu.2
    have hrest := codePoints_append_cons hu b []
    simp only [List.nil_append, codePoints] at hrest
    simp only [List.cons_append, List.nil_append, codePoints, hlow, Bool.and_false, Bool.false_eq_true, if_false, hrest]
  | v :: w :: rest => by
    have hpair := codePoints_append_cons hu b rest
    have hsingle := codePoints_append_cons hu b (w :: rest)
    simp only [List.cons_append] at hsingle
    simp only [List.cons_append, codePoints]
    split
    · rw [hpair]
      rfl
    · rw [hsingle]
      rfl

end Text

theorem Utf8.encode_append {u : CodeUnit} (hu : u.isSurrogate = false) (a b : Text) :
    encode (a ++ [u] ++ b) = encode (a ++ [u]) ++ encode b := by
  rw [List.append_assoc, List.singleton_append]
  simp only [encode, Text.codePoints_append_cons hu]
  simp [Text.codePoints]

theorem FileTree.append_of_read {files : FileTree} {path : Text} {old : Utf8.Bytes} (h : files.read path = .ok old)
    (hfile : path.getLast? ≠ some 0x2F) (new : Utf8.Bytes) :
    ∃ files', files.append path new = .ok files' ∧ files'.read path = .ok (old ++ new) := by
  suffices hwrite : ∃ files', files.write path (old ++ new) = .ok files' by
    obtain ⟨files', hwrite⟩ := hwrite
    exact ⟨files', by simp only [append, h, hwrite], read_write hwrite⟩
  unfold read at h
  split at h
  · cases h
  · rename_i dest hplace
    split at h
    · rename_i hnode
      refine ⟨files.put dest (.file (old ++ new)), ?_⟩
      rw [← Path.dropSlashes_of_getLast? hfile] at hplace
      simp [write, hplace, hnode, hfile]
    · cases h
    · cases h

namespace LogFile

open Utf8 (encode Bytes)

variable {path : Text}

/-- What the writer has not appended yet is appended, and there is nothing to report. -/
theorem drain_reads (batch queue : List Text) {files : FileTree} {old : Bytes} (h : files.read path = .ok old)
    (hfile : path.getLast? ≠ some 0x2F) :
    ∃ files', (drain (appendTo path) ⟨queue, some batch⟩).run files = ([], files') ∧
      files'.read path = .ok (old ++ encode batch.flatten ++ encode queue.flatten) := by
  obtain ⟨files', happend, hread⟩ := FileTree.append_of_read h hfile (encode batch.flatten)
  have hnext : (drain (appendTo path) ⟨queue, some batch⟩).run files =
      (drain (appendTo path) (LogWriter.settle ⟨queue, some batch⟩ none).1).run files' := by
    have hrun : (appendTo path (encode batch.flatten)).run files = (none, files') := by
      simp only [appendTo, StateT.run, happend]
    rw [drain]
    simp only [StateT.run_bind, hrun]
    rfl
  rw [hnext]
  cases queue with
  | nil =>
    refine ⟨files', ?_, ?_⟩
    · rw [LogWriter.settle, LogWriter.start, drain]
      rfl
    · rw [hread]
      simp [encode, Text.codePoints]
  | cons t rest =>
    obtain ⟨last, hrun, hlast⟩ := drain_reads (t :: rest) [] hread hfile
    refine ⟨last, hrun, ?_⟩
    rw [hlast]
    simp [encode, Text.codePoints]
termination_by queue.length

theorem getLast?_pathAt (home time : Text) : (pathAt home time).getLast? ≠ some 0x2F := by
  have hext : Text.ofString ".log" = [0x2E, 0x6C, 0x6F, 0x67] := by decide
  simp [pathAt, Path.child, hext, List.getLast?_append, List.getLast?_cons]

/-- Entries that come while a batch is under way wait behind it. -/
theorem handleAll_entries (batch : List Text) : ∀ entries queue : List Text,
    (LogWriter.handleAll ⟨queue, some batch⟩ (entries.map .entry)).1 = ⟨queue ++ entries, some batch⟩
  | [], queue => by rw [List.append_nil]; rfl
  | t :: rest, queue => by
    have hrest := handleAll_entries batch rest (queue ++ [t])
    rw [List.append_assoc, List.singleton_append] at hrest
    exact hrest

/-- **A log file that can be read holds every entry of a run**, in order and each once, behind what it held before, and
there is nothing to report. -/
theorem record_reads_entries {files : FileTree} {home time : Text} {old : Bytes}
    (h : files.read (pathAt home time) = .ok old) (lines : List (Text × Text)) :
    let entries := lines.map fun (now, message) => entry now message
    let (files', reports) := record files (pathAt home time) entries
    reports = [] ∧ files'.read (pathAt home time) = .ok (old ++ encode entries.flatten) := by
  intro entries
  cases hentries : entries with
  | nil =>
    have hrun : record files (pathAt home time) [] = (files, []) := by
      unfold record keep LogWriter.handleAll
      rw [List.map_nil, drain]
      rfl
    simp [hrun, h, encode, Text.codePoints]
  | cons first rest =>
    obtain ⟨⟨now, message⟩, -, rfl⟩ := List.exists_of_mem_map (hentries ▸ List.mem_cons_self : first ∈ entries)
    have hfirst : (LogWriter.idle.handleAll ((entry now message :: rest).map .entry)).1 =
        ⟨rest, some [entry now message]⟩ := handleAll_entries _ rest []
    obtain ⟨files', hrun, hread⟩ := drain_reads [entry now message] rest h (getLast?_pathAt home time)
    have hrecord : record files (pathAt home time) (entry now message :: rest) = (files', []) := by
      rw [record, keep, hfirst, hrun]
    -- the first entry ends with a line feed, so its bytes are its own
    have hencode : encode (entry now message ++ rest.flatten) = encode (entry now message) ++ encode rest.flatten :=
      Utf8.encode_append rfl _ _
    rw [hrecord]
    refine ⟨rfl, hread.trans ?_⟩
    rw [List.flatten_cons, List.flatten_nil, List.append_nil, List.flatten_cons, hencode, List.append_assoc]

end LogFile

end Typeahead
