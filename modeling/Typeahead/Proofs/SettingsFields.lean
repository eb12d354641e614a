import Mathlib.Data.List.TakeWhile
import Typeahead.Proofs.SettingsLoading
import Typeahead.Proofs.WholeNumbers

/-!
# Where each setting comes from

A setting is the first valid value among its variable, what the file holds for it and its default, and nothing that is
said of the other settings matters (`EchoConfig.load_finds_settings`).  A value in the file that is not valid leaves
one line in the log, and a variable leaves none.
-/

namespace Typeahead

open Text (ofString)

/-! ## Valid values -/

namespace Value

inductive SpellsFlag : Value → Bool → Prop
  | bool (b : Bool) : SpellsFlag (.bool b) b
  | yes {t : Text} (h : t = ofString "true" ∨ t = ofString "1") : SpellsFlag (.text t) true
  | no {t : Text} (h : t = ofString "false" ∨ t = ofString "0") : SpellsFlag (.text t) false

inductive SpellsMillis : Value → Binary64 → Prop
  | number {n : Binary64} (h : n.NonNegative) : SpellsMillis (.number n) n
  | text {t : Text} (hblank : ∃ u ∈ t, u.isBlank = false) (h : (Binary64.ofText t).NonNegative) :
      SpellsMillis (.text t) (.ofText t)

def SpellsKeys (v : Value) (keys : List Text) : Prop := v = .list (keys.map .text)

theorem flag?_eq_some_iff {v : Value} {b : Bool} : v.flag? = some b ↔ v.SpellsFlag b := by
  constructor
  · intro h
    unfold flag? at h
    split at h
    · cases h
      exact .bool b
    · split at h
      · rename_i hyes
        cases h
        exact .yes (by simpa using hyes)
      · split at h
        · rename_i hno
          cases h
          exact .no (by simpa using hno)
        · cases h
    · cases h
  · intro h
    cases h with
    | bool => rfl
    | yes h => rcases h with rfl | rfl <;> rfl
    | no h => rcases h with rfl | rfl <;> rfl

end Value

theorem Text.trim_eq_nil_iff (t : Text) : t.trim = [] ↔ ∀ u ∈ t, u.isBlank = true := by
  rw [trim, List.reverse_eq_nil_iff, List.dropWhile_eq_nil_iff]
  simp only [List.mem_reverse]
  constructor
  · intro h
    cases hd : t.dropWhile CodeUnit.isBlank with
    | nil => exact List.dropWhile_eq_nil_iff.mp hd
    | cons u rest =>
      -- what is left begins with a unit that is not blank
      have hu := List.head?_dropWhile_not CodeUnit.isBlank t
      rw [hd] at hu h
      simp [h u List.mem_cons_self] at hu
  · intro h u hu
    exact h u ((List.dropWhile_suffix _).subset hu)

namespace Value

theorem millis?_eq_some_iff {v : Value} {n : Binary64} : v.millis? = some n ↔ v.SpellsMillis n := by
  have hblank (t : Text) : t.trim.isEmpty = false ↔ ∃ u ∈ t, u.isBlank = false := by
    simp [← Bool.not_eq_true, List.isEmpty_iff, Text.trim_eq_nil_iff]
  constructor
  · intro h
    unfold millis? at h
    split at h
    · split at h
      · rename_i hduration
        cases h
        exact .number ((Binary64.isDuration_iff n).mp hduration)
      · cases h
    · rename_i t
      split at h
      · cases h
      · rename_i htrim
        split at h
        · rename_i hduration
          cases h
          exact .text ((hblank t).mp (by simpa using htrim)) ((Binary64.isDuration_iff _).mp hduration)
        · cases h
    · cases h
  · intro h
    cases h with
    | number h => rw [millis?, if_pos ((Binary64.isDuration_iff n).mpr h)]
    | text hb h =>
      rw [millis?, (hblank _).mpr hb, if_neg Bool.false_ne_true, if_pos ((Binary64.isDuration_iff _).mpr h)]

theorem keys?_eq_some_iff {v : Value} {keys : List Text} : v.keys? = some keys ↔ v.SpellsKeys keys := by
  cases v with
  | list items => simp [keys?, SpellsKeys, texts?_eq_some_iff]
  | _ => simp [keys?, SpellsKeys]

end Value

/-! ## The first valid value -/

/-- The first value that is there and valid, and the fallback if there is none. -/
inductive FirstValid {α : Type} (valid : Value → α → Prop) (fallback : α) : List (Option Value) → α → Prop
  | fallback : FirstValid valid fallback [] fallback
  | found {v : Value} {a : α} {rest : List (Option Value)} (h : valid v a) :
      FirstValid valid fallback (some v :: rest) a
  | passed {source : Option Value} {a : α} {rest : List (Option Value)}
      (h : ∀ v, source = some v → ∀ b, ¬valid v b) (hrest : FirstValid valid fallback rest a) :
      FirstValid valid fallback (source :: rest) a

section
variable {α : Type} {valid : Value → α → Prop} {read? : Value → Option α} {fallback : α}

theorem FirstValid.of_read (hread : ∀ v a, read? v = some a ↔ valid v a) : ∀ sources : List (Option Value),
    FirstValid valid fallback sources ((sources.findSome? fun source => source.bind read?).getD fallback)
  | [] => .fallback
  | source :: rest => by
    cases hsource : source.bind read? with
    | some a =>
      obtain ⟨v, rfl, ha⟩ := Option.bind_eq_some_iff.mp hsource
      rw [List.findSome?_cons, hsource]
      exact .found ((hread v a).mp ha)
    | none =>
      rw [List.findSome?_cons, hsource]
      refine .passed ?_ (FirstValid.of_read hread rest)
      rintro v rfl b hb
      rw [Option.bind_some, (hread v b).mpr hb] at hsource
      cases hsource

theorem FirstValid.of_two (hread : ∀ v a, read? v = some a ↔ valid v a) (first second : Option Value) :
    FirstValid valid fallback [first, second] ((first.bind read? <|> second.bind read?).getD fallback) := by
  have h : FirstValid valid fallback [first, second] _ := .of_read hread _
  cases hfirst : first.bind read? <;> cases hsecond : second.bind read? <;>
    simpa [List.findSome?, hfirst, hsecond] using h

theorem FirstValid.unique (hread : ∀ v a, read? v = some a ↔ valid v a) {sources : List (Option Value)} {a b : α}
    (ha : FirstValid valid fallback sources a) (hb : FirstValid valid fallback sources b) : a = b := by
  induction ha with
  | fallback =>
    cases hb
    rfl
  | found h =>
    cases hb with
    | found h' => exact Option.some.inj (((hread _ _).mpr h).symm.trans ((hread _ _).mpr h'))
    | passed h' => exact absurd h (h' _ rfl _)
  | passed h _ ih =>
    cases hb with
    | found h' => exact absurd h' (h _ rfl _)
    | passed _ hb => exact ih hb

end

theorem FirstValid.millis_nonNegative {fallback n : Binary64} {sources : List (Option Value)}
    (h : FirstValid Value.SpellsMillis fallback sources n) (hfallback : fallback.NonNegative) : n.NonNegative := by
  induction h with
  | fallback => exact hfallback
  | found h =>
    cases h with
    | number h => exact h
    | text _ h => exact h
  | passed _ _ ih => exact ih

/-! ## Lines about values that are not valid -/

def TellsInvalid (name : String) (line : Text) : Prop :=
  ofString "[termecho] Warning: '" ++ ofString name ++ ofString "' in config is not " <+: line

inductive LinesAbout (name : String) (valid : Value → Prop) : Option Value → List Text → Prop
  | absent : LinesAbout name valid none []
  | valid {v : Value} (h : valid v) : LinesAbout name valid (some v) []
  | invalid {v : Value} {line : Text} (h : ¬valid v) (hline : TellsInvalid name line) :
      LinesAbout name valid (some v) [line]

theorem Text.ofString_append (a b : String) : ofString (a ++ b) = ofString a ++ ofString b := by
  simp [ofString, String.toList_append]

theorem dropped_tellsInvalid (name kind : String) (quoted : Option Text) :
    TellsInvalid name (dropped name kind quoted) := by
  have hopen : ofString "[termecho] Warning: '" = ofString "[termecho] Warning: " ++ ofString "'" := rfl
  simp only [TellsInvalid, dropped, warning, Text.ofString_append, hopen, List.append_assoc, List.prefix_append_right_inj]
  exact List.prefix_append _ _

theorem untilError_of_none : ∀ {complaints : List (Except ConfigError Text)}, (untilError complaints).2 = none →
    complaints = (untilError complaints).1.map .ok
  | [], _ => rfl
  | .error _ :: _, h => by cases h
  | .ok line :: rest, h => by
    have ih : rest = (untilError rest).1.map .ok := untilError_of_none h
    rw [untilError, List.map_cons, ← ih]

section
variable {α : Type} {name kind : String} {valid : Value → α → Prop} {read? : Value → Option α}
  {stored : Option Value} {lines : List Text}

theorem LinesAbout.of_dropped {accepts : Value → Prop} {v : Value} {quoted : Option Text} (hv : ¬accepts v)
    (h : [.ok (dropped name kind quoted)] = lines.map (@Except.ok ConfigError Text)) :
    LinesAbout name accepts (some v) lines := by
  obtain ⟨line, rest, rfl, hline, hrest⟩ := List.map_eq_cons_iff.mp h.symm
  cases hline
  rw [List.map_eq_nil_iff.mp hrest]
  exact .invalid hv (dropped_tellsInvalid _ _ _)

theorem droppedValue_linesAbout (hread : ∀ v a, read? v = some a ↔ valid v a)
    (h : droppedValue name kind read? stored = lines.map .ok) :
    LinesAbout name (fun v => ∃ a, valid v a) stored lines := by
  have hnone {v : Value} (h : ¬(read? v).isSome = true) : ¬∃ a, valid v a := by
    rintro ⟨a, ha⟩
    simp [(hread v a).mpr ha] at h
  unfold droppedValue at h
  split at h
  · rw [List.map_eq_nil_iff.mp h.symm]
    exact .absent
  · rename_i v
    split at h
    · rename_i hsome
      obtain ⟨a, ha⟩ := Option.isSome_iff_exists.mp hsome
      rw [List.map_eq_nil_iff.mp h.symm]
      exact .valid ⟨a, (hread v a).mp ha⟩
    · rename_i hsome
      split at h
      · exact .of_dropped (hnone hsome) h
      · obtain ⟨line, rest, rfl, hline, hrest⟩ := List.map_eq_cons_iff.mp h.symm
        cases hline

theorem droppedKeys_linesAbout (h : droppedKeys stored = lines.map .ok) :
    LinesAbout "pauseOn" (fun v => ∃ keys, v.SpellsKeys keys) stored lines := by
  unfold droppedKeys at h
  split at h
  · rw [List.map_eq_nil_iff.mp h.symm]
    exact .absent
  · rename_i v
    split at h
    · rename_i hsome
      obtain ⟨keys, hkeys⟩ := Option.isSome_iff_exists.mp hsome
      rw [List.map_eq_nil_iff.mp h.symm]
      exact .valid ⟨keys, Value.keys?_eq_some_iff.mp hkeys⟩
    · rename_i hsome
      refine .of_dropped ?_ h
      rintro ⟨keys, hkeys⟩
      simp [Value.keys?_eq_some_iff.mpr hkeys] at hsome

end

namespace EchoConfig

/-- What the file that is read holds for the settings: nothing if it is missing or no record. -/
def storedIn (files : FileTree) (home path : Text) : StoredConfig :=
  match files.read (pathToRead files home path) with
  | .ok bytes =>
    match StoredConfig.document? (pathToRead files home path) bytes with
    | some (.record fields) => .ofFields fields
    | _ => .empty
  | .error _ => .empty

def FileLine (files : FileTree) (path : Text) (lines : List Text) : Prop :=
  lines = [] ∨ ∃ bytes t, files.read path = .ok bytes ∧
    (∀ fields, StoredConfig.document? path bytes ≠ some (.record fields)) ∧ lines = [warning t]

theorem storedIn_of_read {files : FileTree} {home path : Text} {bytes : Utf8.Bytes}
    (h : files.read (pathToRead files home path) = .ok bytes) :
    storedIn files home path = (StoredConfig.ofBytes (pathToRead files home path) bytes).1 := by
  simp only [storedIn, h]
  split
  · rename_i fields hdoc
    rw [StoredConfig.ofBytes_of_record hdoc]
  · rename_i hdoc
    obtain ⟨t, ht⟩ := StoredConfig.ofBytes_of_not_record hdoc
    rw [ht]

theorem load_eq_settle {files : FileTree} {home path : Text} {env : Environment} {c : EchoConfig}
    (h : (load files home path env).outcome = .ok c) : ∃ first, FileLine files (pathToRead files home path) first ∧
      ∀ env', load files home path env' = settle (storedIn files home path) env' first := by
  cases hread : files.read (pathToRead files home path) with
  | ok bytes =>
    refine ⟨(StoredConfig.ofBytes (pathToRead files home path) bytes).2, ?_, ?_⟩
    · by_cases hrecord : ∃ fields, StoredConfig.document? (pathToRead files home path) bytes = some (.record fields)
      · obtain ⟨fields, hdoc⟩ := hrecord
        exact Or.inl (by rw [StoredConfig.ofBytes_of_record hdoc])
      · have hnone := not_exists.mp hrecord
        obtain ⟨t, ht⟩ := StoredConfig.ofBytes_of_not_record hnone
        exact Or.inr ⟨bytes, t, hread, hnone, by rw [ht]⟩
    · intro env'
      rw [load_of_read env' hread, storedIn_of_read hread]
  | error e =>
    have hstored : storedIn files home path = .empty := by simp only [storedIn, hread]
    have hmissing : files.exists? (pathToRead files home path) = false := by
      cases hexists : files.exists? (pathToRead files home path) with
      | false => rfl
      | true => simp [load, hexists, hread] at h
    refine ⟨[], Or.inl rfl, fun env' => ?_⟩
    rw [hstored]
    simp [load, hmissing]

theorem settle_log_of_ok {stored : StoredConfig} {env : Environment} {log : List Text} {c : EchoConfig}
    (h : (settle stored env log).outcome = .ok c) : c = resolve stored env ∧ ∃ flag millis keys,
      (settle stored env log).log = log ++ (flag ++ millis ++ keys) ∧
      LinesAbout "localEcho" (fun v => ∃ b, v.SpellsFlag b) stored.localEcho flag ∧
      LinesAbout "pauseMillis" (fun v => ∃ n, v.SpellsMillis n) stored.pauseMillis millis ∧
      LinesAbout "pauseOn" (fun v => ∃ keys, v.SpellsKeys keys) stored.pauseOn keys := by
  have hnone : (untilError stored.complaints).2 = none := by
    cases he : (untilError stored.complaints).2 with
    | none => rfl
    | some e => simp [settle, he] at h
  have hlines := untilError_of_none hnone
  rw [StoredConfig.complaints_eq] at hlines
  obtain ⟨front, keys, hfront, hmap, hkeys⟩ := List.map_eq_append_iff.mp hlines.symm
  obtain ⟨flag, millis, rfl, hflag, hmillis⟩ := List.map_eq_append_iff.mp hmap
  refine ⟨?_, flag, millis, keys, ?_, ?_, ?_, ?_⟩
  · simpa [settle, hnone, eq_comm] using h
  · simp only [settle, StoredConfig.complaints_eq, hfront]
  · exact droppedValue_linesAbout (fun _ _ => Value.flag?_eq_some_iff) hflag.symm
  · exact droppedValue_linesAbout (fun _ _ => Value.millis?_eq_some_iff) hmillis.symm
  · exact droppedKeys_linesAbout hkeys.symm

/-! ## Settings -/

def fromVariable (env : Environment) (name : String) : Option Value := (env.get? name).map .text

theorem value?_bind {α : Type} {read? : Value → Option α} (hempty : read? (.text []) = none) (env : Environment)
    (name : String) : (env.value? name).bind read? = (fromVariable env name).bind read? := by
  unfold Environment.value? fromVariable
  split
  · rename_i h
    simp [h, hempty]
  · rename_i h
    rw [h]
    rfl
  · rename_i h
    rw [h]
    rfl

structure Finds (stored : StoredConfig) (env : Environment) (c : EchoConfig) : Prop where
  localEcho : FirstValid Value.SpellsFlag true [fromVariable env "TERMECHO_LOCAL_ECHO", stored.localEcho] c.localEcho
  pauseMillis : FirstValid Value.SpellsMillis (.ofNat 500) [fromVariable env "TERMECHO_PAUSE_MS", stored.pauseMillis]
    c.pauseMillis
  pauseOn : FirstValid Value.SpellsKeys [] [stored.pauseOn] c.pauseOn

theorem resolve_finds (stored : StoredConfig) (env : Environment) : Finds stored env (resolve stored env) where
  localEcho := by
    have hempty : Value.flag? (.text []) = none := rfl
    rw [resolve, value?_bind hempty]
    exact .of_two (fun _ _ => Value.flag?_eq_some_iff) _ _
  pauseMillis := by
    have hempty : Value.millis? (.text []) = none := rfl
    rw [resolve, value?_bind hempty]
    exact .of_two (fun _ _ => Value.millis?_eq_some_iff) _ _
  pauseOn := by
    have h : FirstValid Value.SpellsKeys [] [stored.pauseOn] _ := .of_read (fun _ _ => Value.keys?_eq_some_iff) _
    cases hkeys : stored.pauseOn.bind Value.keys? <;> simpa [resolve, default, List.findSome?, hkeys] using h

/-- **Each setting comes from its own sources and is valid.**  Whenever loading yields settings, each is the first
valid value among its variable, what the file holds for it and its default.  Two loads that agree on what is said of
one setting agree on it, whatever is said of the others.  The log has one line for each value in the file that is
there and not valid, no other line unless the file is no record, and it is the same in every environment. -/
theorem load_finds_settings {files : FileTree} {home path : Text} {env : Environment} {c : EchoConfig}
    (h : (load files home path env).outcome = .ok c) :
    let stored := storedIn files home path
    Finds stored env c ∧ c.pauseMillis.NonNegative ∧
    (∀ files' home' path' env' c', (load files' home' path' env').outcome = .ok c' →
      let stored' := storedIn files' home' path'
      (env.get? "TERMECHO_LOCAL_ECHO" = env'.get? "TERMECHO_LOCAL_ECHO" → stored.localEcho = stored'.localEcho →
        c.localEcho = c'.localEcho) ∧
      (env.get? "TERMECHO_PAUSE_MS" = env'.get? "TERMECHO_PAUSE_MS" → stored.pauseMillis = stored'.pauseMillis →
        c.pauseMillis = c'.pauseMillis) ∧
      (stored.pauseOn = stored'.pauseOn → c.pauseOn = c'.pauseOn)) ∧
    (∃ first flag millis keys, (load files home path env).log = first ++ (flag ++ millis ++ keys) ∧
      FileLine files (pathToRead files home path) first ∧
      LinesAbout "localEcho" (fun v => ∃ b, v.SpellsFlag b) stored.localEcho flag ∧
      LinesAbout "pauseMillis" (fun v => ∃ n, v.SpellsMillis n) stored.pauseMillis millis ∧
      LinesAbout "pauseOn" (fun v => ∃ keys, v.SpellsKeys keys) stored.pauseOn keys) ∧
    ∀ env', (load files home path env').log = (load files home path env).log := by
  intro stored
  have hfinds {files : FileTree} {home path : Text} {env : Environment} {c : EchoConfig}
      (h : (load files home path env).outcome = .ok c) : Finds (storedIn files home path) env c := by
    obtain ⟨first, -, hload⟩ := load_eq_settle h
    rw [hload] at h
    rw [(settle_log_of_ok h).1]
    exact resolve_finds _ _
  obtain ⟨first, hfile, hload⟩ := load_eq_settle h
  refine ⟨hfinds h, ?_, ?_, ?_, ?_⟩
  · exact (hfinds h).pauseMillis.millis_nonNegative
      ((Binary64.isDuration_iff _).mp (Binary64.ofNat_isDuration (by decide)))
  · intro files' home' path' env' c' h' stored'
    have hc := hfinds h
    have hc' := hfinds h'
    refine ⟨fun henv hstored => ?_, fun henv hstored => ?_, fun hstored => ?_⟩
    · have hfirst := hc.localEcho
      rw [fromVariable, henv, hstored] at hfirst
      exact hfirst.unique (fun _ _ => Value.flag?_eq_some_iff) hc'.localEcho
    · have hfirst := hc.pauseMillis
      rw [fromVariable, henv, hstored] at hfirst
      exact hfirst.unique (fun _ _ => Value.millis?_eq_some_iff) hc'.pauseMillis
    · have hfirst := hc.pauseOn
      rw [hstored] at hfirst
      exact hfirst.unique (fun _ _ => Value.keys?_eq_some_iff) hc'.pauseOn
  · rw [hload] at h ⊢
    obtain ⟨-, flag, millis, keys, hlog, hlines⟩ := settle_log_of_ok h
    exact ⟨first, flag, millis, keys, hlog, hfile, hlines⟩
  · intro env'
    rw [hload, hload]
    rfl

def mixedValues : Text := ofString "\x7b\"localEcho\":\"maybe\",\"pauseMillis\":40,\"pauseOn\":[\"e\"]\x7d"

def pauseVariable : Text × Text := (ofString "TERMECHO_PAUSE_MS", ofString " 0x20 ")

def noFlag : Environment := [(ofString "TERMECHO_LOCAL_ECHO", ofString "yes"), pauseVariable]

def flagOff : Environment := [pauseVariable, (ofString "TERMECHO_LOCAL_ECHO", ofString "0")]

theorem load_finds_settings_mixedValues :
    let files := oneFile mixedValues
    let path := ofString "c.json"
    let c : EchoConfig := ⟨true, .ofNat 32, [ofString "e"]⟩
    let c' : EchoConfig := ⟨false, .ofNat 32, [ofString "e"]⟩
    (load files [] path noFlag).outcome = .ok c ∧ Finds (storedIn files [] path) noFlag c ∧
      c.pauseMillis.NonNegative ∧ (load files [] path flagOff).outcome = .ok c' ∧
      noFlag.get? "TERMECHO_PAUSE_MS" = flagOff.get? "TERMECHO_PAUSE_MS" ∧ c.pauseMillis = c'.pauseMillis ∧
      c.pauseOn = c'.pauseOn ∧ (load files [] path flagOff).log = (load files [] path noFlag).log := by
  intro files path c c'
  have hc : (load files [] path noFlag).outcome = .ok c := by decide +kernel
  have hc' : (load files [] path flagOff).outcome = .ok c' := by decide +kernel
  have hpause : noFlag.get? "TERMECHO_PAUSE_MS" = flagOff.get? "TERMECHO_PAUSE_MS" := by decide +kernel
  obtain ⟨hfinds, hmillis, hother, -, hlog⟩ := load_finds_settings hc
  obtain ⟨-, hsame, hkeys⟩ := hother _ _ _ _ _ hc'
  exact ⟨hc, hfinds, hmillis, hc', hpause, hsame hpause rfl, hkeys rfl, hlog _⟩

end EchoConfig

end Typeahead
