import Typeahead.Proofs.JsonRoundTrip
import Typeahead.Proofs.SettingsLoading
import Typeahead.Proofs.Utf8RoundTrip
import Typeahead.Proofs.WrittenText

/-!
# Settings that were saved are loaded again

Saved settings come back as they were (`EchoConfig.load_save`): their text survives the file, JSON is read back
for what it was written from, and no check of the reader refuses what the writer wrote.
-/

namespace Typeahead

open Text (ofString)

theorem Value.itemsWellFormed_map_text {ts : List Text} (h : ∀ t ∈ ts, t.WellFormed) :
    Value.ItemsWellFormed (ts.map .text) := by
  induction ts with
  | nil => trivial
  | cons t ts ih =>
    obtain ⟨ht, hts⟩ := List.forall_mem_cons.mp h
    exact ⟨ht, ih hts⟩

theorem Json.keptItems_map_text (ts : List Text) : Json.KeptItems (ts.map .text) := by
  induction ts with
  | nil => trivial
  | cons t ts ih => exact ⟨trivial, ih⟩

namespace EchoConfig

variable {c : EchoConfig} {n : Nat}

theorem toValue_kept (hn : n ≤ Nat.pow 2 53) (hc : c.pauseMillis = .ofNat n) : Json.Kept c.toValue := by
  refine ⟨⟨trivial, ⟨n, hn, hc⟩, Json.keptItems_map_text _, trivial⟩, ?_⟩
  show [ofString "localEcho", ofString "pauseMillis", ofString "pauseOn"].Nodup
  decide

theorem toValue_wellFormed (hkeys : ∀ key ∈ c.pauseOn, key.WellFormed) : c.toValue.WellFormed := by
  have hname : (ofString "localEcho").WellFormed ∧ (ofString "pauseMillis").WellFormed ∧
      (ofString "pauseOn").WellFormed := by decide
  exact ⟨hname.1, trivial, hname.2.1, trivial, hname.2.2, Value.itemsWellFormed_map_text hkeys, trivial⟩

theorem toText_wellFormed (path : Text) (hkeys : ∀ key ∈ c.pauseOn, key.WellFormed) :
    (c.toText path).WellFormed := by
  have hvalue := toValue_wellFormed hkeys
  unfold toText
  split
  · exact Yaml.write_wellFormed hvalue
  · exact Json.write_wellFormed true 0 hvalue

theorem ofFields_fields (c : EchoConfig) : StoredConfig.ofFields c.fields =
    ⟨some (.bool c.localEcho), some (.number c.pauseMillis), some (.list (c.pauseOn.map .text))⟩ := by
  simp only [StoredConfig.ofFields, fields, Value.field?]
  rfl

/-- The bytes of saved settings are read as their fields. -/
theorem ofBytes_encode_toText {path : Text} (hn : n ≤ Nat.pow 2 53) (hc : c.pauseMillis = .ofNat n)
    (hkeys : ∀ key ∈ c.pauseOn, key.WellFormed)
    (hyaml : isYamlPath path = true → Yaml.read? (Yaml.write c.toValue) = some c.toValue) :
    StoredConfig.ofBytes path (Utf8.encode (c.toText path)) = (StoredConfig.ofFields c.fields, []) := by
  apply StoredConfig.ofBytes_of_record
  unfold StoredConfig.document?
  rw [Utf8.decode_encode (toText_wellFormed path hkeys)]
  unfold toText
  split
  · rename_i hpath
    exact hyaml hpath
  · exact Json.read?_write true (toValue_kept hn hc)

theorem settle_fields (hn : n ≤ Nat.pow 2 53) (hc : c.pauseMillis = .ofNat n) :
    settle (StoredConfig.ofFields c.fields) [] [] = ⟨[], .ok c⟩ := by
  have hmillis : (Value.number c.pauseMillis).millis? = some c.pauseMillis := by
    rw [hc, Value.millis?, if_pos (Binary64.ofNat_isDuration hn)]
  have hkeys : (Value.list (c.pauseOn.map .text)).keys? = some c.pauseOn := Value.texts?_eq_some_iff.mpr rfl
  have hcomplaints : (StoredConfig.ofFields c.fields).complaints = [] := by
    simp [StoredConfig.complaints, ofFields_fields, droppedValue, Value.flag?, hmillis, hkeys]
  have hresolve : resolve (StoredConfig.ofFields c.fields) [] = c := by
    simp [resolve, ofFields_fields, Value.flag?, hmillis, hkeys, Environment.value?, Environment.get?]
  simp only [settle, hcomplaints, hresolve, untilError, List.append_nil]

/-- **Saved settings are loaded as they were**, whatever the file held before and without a line in the log.  The
pause is a whole number of milliseconds and no key has a surrogate that stands alone; for a YAML file, reading
YAML has to invert writing it on these settings. -/
theorem load_save {files files' : FileTree} {path : Text} (home : Text) (hn : n ≤ Nat.pow 2 53)
    (hc : c.pauseMillis = .ofNat n) (hkeys : ∀ key ∈ c.pauseOn, key.WellFormed)
    (hyaml : isYamlPath path = true → Yaml.read? (Yaml.write c.toValue) = some c.toValue)
    (hsave : save files c path = .ok files') : load files' home path [] = ⟨[], .ok c⟩ := by
  have hwrite : ∃ made : FileTree, made.write path (Utf8.encode (c.toText path)) = .ok files' := by
    unfold save at hsave
    dsimp only at hsave
    split at hsave
    · exact ⟨_, hsave⟩
    · cases hmade : files.makeDirectories (Path.parent path) with
      | error e => rw [hmade] at hsave; cases hsave
      | ok made => rw [hmade] at hsave; exact ⟨made, hsave⟩
  obtain ⟨made, hwrite⟩ := hwrite
  have hread := FileTree.read_write hwrite
  have hpath : pathToRead files' home path = path := by simp [pathToRead, FileTree.exists?_of_read hread]
  rw [load_of_read [] (by rw [hpath]; exact hread), hpath, ofBytes_encode_toText hn hc hkeys hyaml]
  exact settle_fields hn hc

def escapedKeys : EchoConfig :=
  ⟨false, .ofNat 250, [[0x08], ofString "it's \"ok\"\\", [], ofString "é😀", ofString "no"]⟩

theorem load_save_escapedKeys : ∃ files',
    save ⟨[([ofString "set.YML"], .file [0xFF])], []⟩ escapedKeys (ofString "set.YML") = .ok files' ∧
      load files' [] (ofString "set.YML") [] = ⟨[], .ok escapedKeys⟩ := by
  have hkeys : ∀ key ∈ escapedKeys.pauseOn, key.WellFormed := by decide
  have hyaml : Yaml.read? (Yaml.write escapedKeys.toValue) = some escapedKeys.toValue := by decide +kernel
  obtain ⟨files', hsave⟩ : ∃ files',
      save ⟨[([ofString "set.YML"], .file [0xFF])], []⟩ escapedKeys (ofString "set.YML") = .ok files' := ⟨_, rfl⟩
  exact ⟨files', hsave, load_save (n := 250) [] (by decide) rfl hkeys (fun _ => hyaml) hsave⟩

end EchoConfig

end Typeahead
