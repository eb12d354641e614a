import Typeahead.Config.Load
import Typeahead.Proofs.WrittenFile

/-!
# What a settings file can do

Whatever bytes a settings file holds, loading settles every setting: a file that is no record counts as empty, a
value that is no setting counts as absent, and all that comes of either is a warning in the log.  The one exception
is a value that the warning cannot quote (`EchoConfig.load_settles_unless_unquotable`).
-/

namespace Typeahead

open Text (ofString)

namespace Value

/-- A value that no sentence can quote: a record with a field of its own named `toString`, or a list that holds
such a value. -/
inductive Unquotable : Value → Prop
  | record {fields : List (Text × Value)} (h : (field? (ofString "toString") fields).isSome = true) :
      Unquotable (.record fields)
  | item {v : Value} {items : List Value} (hv : v ∈ items) : Unquotable v → Unquotable (.list items)

theorem unquotable_record_iff (fields : List (Text × Value)) :
    Unquotable (.record fields) ↔ (field? (ofString "toString") fields).isSome = true := by
  constructor
  · rintro ⟨h⟩
    exact h
  · exact .record

theorem unquotable_list_iff (items : List Value) : Unquotable (.list items) ↔ ∃ v ∈ items, Unquotable v := by
  constructor
  · intro h
    cases h with
    | item hv h => exact ⟨_, hv, h⟩
  · rintro ⟨v, hv, h⟩
    exact .item hv h

theorem quotedItems?_cons_eq_none_iff (v : Value) (rest : List Value) :
    quotedItems? (v :: rest) = none ↔ v.quoted? = none ∨ quotedItems? rest = none := by
  cases v with
  | null => simp [quotedItems?, quoted?]
  | bool b => cases hr : quotedItems? rest <;> cases b <;> simp [quotedItems?, quoted?, hr]
  | number n => cases hr : quotedItems? rest <;> simp [quotedItems?, quoted?, hr]
  | text t => cases hr : quotedItems? rest <;> simp [quotedItems?, quoted?, hr]
  | list items =>
    cases hq : quoted? (.list items) <;> cases hr : quotedItems? rest <;> simp [quotedItems?, hq, hr]
  | record fields =>
    cases hq : quoted? (.record fields) <;> cases hr : quotedItems? rest <;> simp [quotedItems?, hq, hr]

mutual

theorem quoted?_eq_none_iff : ∀ v : Value, v.quoted? = none ↔ v.Unquotable
  | .null | .bool true | .bool false | .number _ | .text _ => by
    constructor
    · intro h; cases h
    · intro h; cases h
  | .list items => by
    rw [quoted?, Option.map_eq_none_iff, unquotable_list_iff]
    exact quotedItems?_eq_none_iff items
  | .record fields => by
    rw [unquotable_record_iff, quoted?]
    split
    · rename_i h; simp [h]
    · rename_i h; simp [h]

theorem quotedItems?_eq_none_iff : ∀ items : List Value, quotedItems? items = none ↔ ∃ v ∈ items, v.Unquotable
  | [] => by simp [quotedItems?]
  | v :: rest => by
    rw [quotedItems?_cons_eq_none_iff, quoted?_eq_none_iff v, quotedItems?_eq_none_iff rest]
    simp only [List.mem_cons, exists_eq_or_imp]

end

instance (v : Value) : Decidable v.Unquotable := decidable_of_iff (v.quoted? = none) v.quoted?_eq_none_iff

end Value

theorem Value.texts?_eq_some_iff {items : List Value} {ts : List Text} :
    texts? items = some ts ↔ items = ts.map .text := by
  induction items generalizing ts with
  | nil => cases ts <;> simp [texts?]
  | cons v items ih =>
    cases v with
    | text t =>
      cases ts with
      | nil => simp [texts?]
      | cons t' ts =>
        simp only [texts?, Option.map_eq_some_iff, ih, List.map_cons, List.cons.injEq, Value.text.injEq]
        constructor
        · rintro ⟨a, hitems, rfl, rfl⟩
          exact ⟨rfl, hitems⟩
        · rintro ⟨rfl, hitems⟩
          exact ⟨ts, hitems, rfl, rfl⟩
    | _ => cases ts <;> simp [texts?]

/-! ## Dropped values -/

section

variable {α : Type} {name kind : String} {read? : Value → Option α} {stored : Option Value}

/-- A value that is none of the setting's own leaves one line, and so one place in the list. -/
theorem droppedValue_length : (droppedValue name kind read? stored).length =
    if stored.filter (fun v => (read? v).isSome) = stored then 0 else 1 := by
  cases stored with
  | none => simp [droppedValue]
  | some v =>
    cases hr : read? v with
    | some a => simp [droppedValue, hr, Option.filter]
    | none => cases hq : v.quoted? <;> simp [droppedValue, hr, hq, Option.filter]

theorem error_mem_droppedValue_iff {e : ConfigError} : .error e ∈ droppedValue name kind read? stored ↔
    e = .unquotable ∧ ∃ v, stored = some v ∧ read? v = none ∧ v.Unquotable := by
  cases stored with
  | none => simp [droppedValue]
  | some v =>
    cases hr : read? v with
    | some a => simp [droppedValue, hr]
    | none => cases hq : v.quoted? <;> simp [droppedValue, hr, hq, ← Value.quoted?_eq_none_iff]

theorem warning_of_mem_droppedValue {line : Text} (h : .ok line ∈ droppedValue name kind read? stored) :
    ∃ t, line = warning t := by
  unfold droppedValue at h
  split at h
  · cases h
  · split at h
    · cases h
    · split at h
      · simp only [List.mem_singleton, Except.ok.injEq] at h
        exact ⟨_, h⟩
      · simp at h

def droppedKeys : Option Value → List (Except ConfigError Text)
  | none => []
  | some v => if v.keys?.isSome then [] else [.ok (dropped "pauseOn" "a list of strings" none)]

theorem droppedKeys_length :
    (droppedKeys stored).length = if stored.filter (fun v => v.keys?.isSome) = stored then 0 else 1 := by
  cases stored with
  | none => rfl
  | some v => cases hk : v.keys? <;> simp [droppedKeys, hk, Option.filter]

theorem eq_dropped_of_mem_droppedKeys {c : Except ConfigError Text} (h : c ∈ droppedKeys stored) :
    c = .ok (dropped "pauseOn" "a list of strings" none) := by
  unfold droppedKeys at h
  split at h
  · cases h
  · split at h
    · cases h
    · exact List.mem_singleton.mp h

end

/-! ## Complaints -/

theorem mem_untilError {line : Text} : ∀ {complaints : List (Except ConfigError Text)},
    line ∈ (untilError complaints).1 → .ok line ∈ complaints
  | [], h => absurd h List.not_mem_nil
  | .error _ :: _, h => absurd h List.not_mem_nil
  | .ok first :: rest, h => by
    rcases List.mem_cons.mp h with rfl | h
    · exact List.mem_cons_self
    · exact List.mem_cons_of_mem _ (mem_untilError h)

theorem untilError_of_no_error : ∀ {complaints : List (Except ConfigError Text)}, (∀ e, .error e ∉ complaints) →
    ∃ lines, complaints = lines.map .ok ∧ untilError complaints = (lines, none)
  | [], _ => ⟨[], rfl, rfl⟩
  | .error e :: _, h => absurd List.mem_cons_self (h e)
  | .ok first :: rest, h => by
    obtain ⟨lines, hlines, huntil⟩ := untilError_of_no_error fun e he => h e (List.mem_cons_of_mem _ he)
    refine ⟨first :: lines, congrArg (.ok first :: ·) hlines, ?_⟩
    rw [untilError, huntil]

theorem untilError_of_error {e : ConfigError} : ∀ {complaints : List (Except ConfigError Text)},
    .error e ∈ complaints → ∃ e', (untilError complaints).2 = some e' ∧ .error e' ∈ complaints
  | .error e' :: _, _ => ⟨e', rfl, List.mem_cons_self⟩
  | .ok _ :: rest, h => by
    rcases List.mem_cons.mp h with h | h
    · cases h
    · obtain ⟨e', he, hmem⟩ := untilError_of_error h
      exact ⟨e', he, List.mem_cons_of_mem _ hmem⟩

namespace StoredConfig

def valid (s : StoredConfig) : StoredConfig where
  localEcho := s.localEcho.filter fun v => v.flag?.isSome
  pauseMillis := s.pauseMillis.filter fun v => v.millis?.isSome
  pauseOn := s.pauseOn.filter fun v => v.keys?.isSome

def droppedCount (s : StoredConfig) : Nat :=
  (if s.valid.localEcho = s.localEcho then 0 else 1) + (if s.valid.pauseMillis = s.pauseMillis then 0 else 1) +
    if s.valid.pauseOn = s.pauseOn then 0 else 1

/-- A value that has to be quoted cannot be.  The list of keys is dropped without being quoted. -/
def Unquotable (s : StoredConfig) : Prop := ∃ v ∈ s.localEcho.toList ++ s.pauseMillis.toList, v.Unquotable

instance (s : StoredConfig) : Decidable s.Unquotable :=
  List.decidableBEx (fun v : Value => v.Unquotable) (s.localEcho.toList ++ s.pauseMillis.toList)

variable {s : StoredConfig}

theorem complaints_eq (s : StoredConfig) : s.complaints =
    droppedValue "localEcho" "a boolean" Value.flag? s.localEcho ++
      droppedValue "pauseMillis" "a non-negative number" Value.millis? s.pauseMillis ++ droppedKeys s.pauseOn := rfl

theorem complaints_length (s : StoredConfig) : s.complaints.length = s.droppedCount := by
  rw [complaints_eq, List.length_append, List.length_append, droppedValue_length, droppedValue_length,
    droppedKeys_length]
  rfl

theorem error_mem_complaints_iff {e : ConfigError} :
    .error e ∈ s.complaints ↔ e = .unquotable ∧ s.Unquotable := by
  have hflag {v : Value} (h : v.Unquotable) : v.flag? = none := by cases h <;> rfl
  have hmillis {v : Value} (h : v.Unquotable) : v.millis? = none := by cases h <;> rfl
  have hkeys : .error e ∉ droppedKeys s.pauseOn := by
    intro h
    cases eq_dropped_of_mem_droppedKeys h
  rw [complaints_eq, List.mem_append, List.mem_append, error_mem_droppedValue_iff, error_mem_droppedValue_iff]
  simp only [Unquotable, List.mem_append, Option.mem_toList]
  constructor
  · rintro ((⟨he, v, hv, -, h⟩ | ⟨he, v, hv, -, h⟩) | h)
    · exact ⟨he, v, .inl hv, h⟩
    · exact ⟨he, v, .inr hv, h⟩
    · exact absurd h hkeys
  · rintro ⟨he, v, hv | hv, h⟩
    · exact .inl (.inl ⟨he, v, hv, hflag h, h⟩)
    · exact .inl (.inr ⟨he, v, hv, hmillis h, h⟩)

theorem warning_of_mem_complaints {line : Text} (h : .ok line ∈ s.complaints) : ∃ t, line = warning t := by
  rw [complaints_eq] at h
  rcases List.mem_append.mp h with h | h
  · rcases List.mem_append.mp h with h | h
    · exact warning_of_mem_droppedValue h
    · exact warning_of_mem_droppedValue h
  · exact ⟨_, Except.ok.inj (eq_dropped_of_mem_droppedKeys h)⟩

theorem error_notMem_complaints (h : ¬s.Unquotable) (e : ConfigError) : .error e ∉ s.complaints := by
  intro he
  exact h (error_mem_complaints_iff.mp he).2

def document? (path : Text) (bytes : Utf8.Bytes) : Option Value :=
  if EchoConfig.isYamlPath path then Yaml.read? (Utf8.decode bytes) else Json.read? (Utf8.decode bytes)

theorem ofBytes_of_record {path : Text} {bytes : Utf8.Bytes} {fields : List (Text × Value)}
    (h : document? path bytes = some (.record fields)) : ofBytes path bytes = (ofFields fields, []) := by
  unfold document? at h
  simp only [ofBytes, h]

/-- A file that is no record is read as an empty one, with one warning. -/
theorem ofBytes_of_not_record {path : Text} {bytes : Utf8.Bytes}
    (h : ∀ fields, document? path bytes ≠ some (.record fields)) :
    ∃ t, ofBytes path bytes = (.empty, [warning t]) := by
  unfold ofBytes
  dsimp only
  split
  · rename_i fields heq
    exact absurd heq (h fields)
  · exact ⟨_, rfl⟩
  · exact ⟨_, rfl⟩

end StoredConfig

/-! ## Loading -/

namespace EchoConfig

theorem resolve_valid (stored : StoredConfig) (env : Environment) : resolve stored.valid env = resolve stored env := by
  have hfilter {α : Type} (read? : Value → Option α) (v? : Option Value) :
      (v?.filter fun v => (read? v).isSome).bind read? = v?.bind read? := by
    cases v? with
    | none => rfl
    | some v => cases hr : read? v <;> simp [Option.filter, hr]
  simp only [resolve, StoredConfig.valid, hfilter]

variable {stored : StoredConfig} (env : Environment) (log : List Text)

theorem warning_of_mem_settle {line : Text} (hlog : ∀ line ∈ log, ∃ t, line = warning t)
    (h : line ∈ (settle stored env log).log) : ∃ t, line = warning t := by
  unfold settle at h
  rcases List.mem_append.mp h with h | h
  · exact hlog line h
  · exact StoredConfig.warning_of_mem_complaints (mem_untilError h)

theorem settle_of_unquotable (h : stored.Unquotable) : (settle stored env log).outcome = .error .unquotable := by
  have hmem := StoredConfig.error_mem_complaints_iff.mpr ⟨rfl, h⟩
  obtain ⟨e, he, hmem⟩ := untilError_of_error hmem
  rw [(StoredConfig.error_mem_complaints_iff.mp hmem).1] at he
  simp only [settle, he]

theorem settle_of_quotable (h : ¬stored.Unquotable) :
    (settle stored env log).outcome = .ok (resolve stored.valid env) ∧
      (settle stored env log).log.length = log.length + stored.droppedCount := by
  obtain ⟨lines, hlines, huntil⟩ := untilError_of_no_error (StoredConfig.error_notMem_complaints h)
  constructor
  · simp only [settle, huntil, resolve_valid]
  · rw [← StoredConfig.complaints_length, hlines, List.length_map]
    simp only [settle, huntil, List.length_append]

theorem load_of_read {files : FileTree} {home path : Text} {bytes : Utf8.Bytes}
    (hread : files.read (pathToRead files home path) = .ok bytes) : load files home path env =
      settle (StoredConfig.ofBytes (pathToRead files home path) bytes).1 env
        (StoredConfig.ofBytes (pathToRead files home path) bytes).2 := by
  have hexists : files.exists? (pathToRead files home path) = true := FileTree.exists?_of_read hread
  simp only [load, hexists, hread, if_true]

/-- **Whatever bytes the file holds, loading yields settings**: those of the environment, then the valid ones of
the file, then the defaults.  A broken file leads to one warning, and so does each invalid value.  Loading fails if
and only if a value that has to be quoted in its warning cannot be. -/
theorem load_settles_unless_unquotable {files : FileTree} {home path : Text} {bytes : Utf8.Bytes}
    (hread : files.read (pathToRead files home path) = .ok bytes) :
    (∀ line ∈ (load files home path env).log, ∃ t, line = warning t) ∧
    (∀ fields stored, StoredConfig.document? (pathToRead files home path) bytes = some (.record fields) →
      StoredConfig.ofFields fields = stored →
      (stored.Unquotable → (load files home path env).outcome = .error .unquotable) ∧
      (¬stored.Unquotable → (load files home path env).outcome = .ok (resolve stored.valid env) ∧
        (load files home path env).log.length = stored.droppedCount)) ∧
    ((∀ fields, StoredConfig.document? (pathToRead files home path) bytes ≠ some (.record fields)) →
      ∃ t, load files home path env = ⟨[warning t], .ok (resolve .empty env)⟩) := by
  rw [load_of_read env hread]
  by_cases hrecord : ∃ fields, StoredConfig.document? (pathToRead files home path) bytes = some (.record fields)
  · obtain ⟨fields, hdoc⟩ := hrecord
    rw [StoredConfig.ofBytes_of_record hdoc]
    refine ⟨fun line hl => warning_of_mem_settle env [] (List.forall_mem_nil _) hl, ?_, ?_⟩
    · rintro other stored hother rfl
      rw [hdoc, Option.some.injEq, Value.record.injEq] at hother
      subst hother
      refine ⟨settle_of_unquotable env [], fun h => ?_⟩
      obtain ⟨hok, hcount⟩ := settle_of_quotable env [] h
      rw [List.length_nil, Nat.zero_add] at hcount
      exact ⟨hok, hcount⟩
    · intro h
      exact absurd hdoc (h fields)
  · have hnone : ∀ fields, StoredConfig.document? (pathToRead files home path) bytes ≠ some (.record fields) :=
      fun fields h => hrecord ⟨fields, h⟩
    obtain ⟨t, ht⟩ := StoredConfig.ofBytes_of_not_record hnone
    rw [ht]
    refine ⟨?_, fun fields _ h _ => absurd h (hnone fields), fun _ => ⟨t, rfl⟩⟩
    intro line hl
    exact ⟨t, List.mem_singleton.mp hl⟩

def oneFile (t : Text) : FileTree := ⟨[([ofString "c.json"], .file (Utf8.encode t))], []⟩

def badValues : Text := ofString "\x7b\"localEcho\":\"maybe\",\"pauseMillis\":[[1]]\x7d"

theorem load_settles_unless_unquotable_badValues :
    (load (oneFile badValues) [] (ofString "c.json") []).outcome = .ok .default ∧
      (load (oneFile badValues) [] (ofString "c.json") []).log.length = 2 := by
  have hread : (oneFile badValues).read (pathToRead (oneFile badValues) [] (ofString "c.json")) =
      .ok (Utf8.encode badValues) := rfl
  have hdoc : StoredConfig.document? (pathToRead (oneFile badValues) [] (ofString "c.json")) (Utf8.encode badValues) =
      some (.record [(ofString "localEcho", .text (ofString "maybe")),
        (ofString "pauseMillis", .list [.list [.number (.ofNat 1)]])]) := by
    decide +kernel
  have hdefault : resolve (StoredConfig.ofFields [(ofString "localEcho", .text (ofString "maybe")),
      (ofString "pauseMillis", .list [.list [.number (.ofNat 1)]])]).valid [] = .default := by
    decide +kernel
  have hload := (load_settles_unless_unquotable [] hread).2.1 _ _ hdoc rfl
  obtain ⟨hok, hcount⟩ := hload.2 (by decide +kernel)
  rw [hok, hcount, hdefault]
  exact ⟨rfl, by decide +kernel⟩

def ownToString : Text := ofString "\x7b\"localEcho\":\x7b\"toString\":1\x7d\x7d"

/-- Loading fails on a record whose `toString` is a value. -/
theorem load_fails_on_ownToString :
    (load (oneFile ownToString) [] (ofString "c.json") []).outcome = .error .unquotable := by
  have hread : (oneFile ownToString).read (pathToRead (oneFile ownToString) [] (ofString "c.json")) =
      .ok (Utf8.encode ownToString) := rfl
  have hdoc : StoredConfig.document? (pathToRead (oneFile ownToString) [] (ofString "c.json"))
      (Utf8.encode ownToString) =
        some (.record [(ofString "localEcho", .record [(ofString "toString", .number (.ofNat 1))])]) := by
    decide +kernel
  rw [load_of_read [] hread, StoredConfig.ofBytes_of_record hdoc]
  exact settle_of_unquotable [] [] (by decide +kernel)

end EchoConfig

end Typeahead
