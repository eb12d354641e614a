import Mathlib.Data.List.Forall2
import Typeahead.Proofs.WholeNumbers
import Typeahead.Proofs.WrittenFile
import Typeahead.Script.Reader

/-!
# The grammar of scripts

A script is accepted exactly if each of its elements spells a step, and then its steps are what the elements spell.
Otherwise the first element that spells none is blamed, and the script as a whole if it is no list.  A file that
is named for a format is read in it.
-/

namespace Typeahead

open Text (ofString)

namespace SessionStep

/-- The elements of a script: a record of one field, whose name and value are those of the step. -/
inductive Spells : Value → SessionStep → Prop
  | type (data : Text) : Spells (.record [(ofString "type", .text data)]) (.type data)
  | input (data : Text) : Spells (.record [(ofString "input", .text data)]) (.input data)
  | output (data : Text) : Spells (.record [(ofString "output", .text data)]) (.output data)
  | wait {millis : Binary64} (h : millis.NonNegative) :
      Spells (.record [(ofString "wait", .number millis)]) (.wait millis)
  | pause {millis : Binary64} (h : millis.NonNegative) :
      Spells (.record [(ofString "pause", .number millis)]) (.pause millis)
  | clear : Spells (.record [(ofString "clear", .bool true)]) .clear

def IsStep (v : Value) : Prop := ∃ step, Spells v step

/-! ## One element -/

section
variable {key : Text} {v : Value} {step : SessionStep}

theorem spells_of_ofText {name : Text} {make : Text → SessionStep}
    (hmake : ∀ data, Spells (.record [(name, .text data)]) (make data)) (hkey : (key == name) = true)
    (h : ofText make key v = .ok step) : Spells (.record [(key, v)]) step := by
  rw [beq_iff_eq.mp hkey]
  unfold ofText at h
  split at h
  · rename_i data
    cases h
    exact hmake data
  · cases h

theorem spells_of_ofMillis {name : Text} {make : Binary64 → SessionStep}
    (hmake : ∀ {millis : Binary64}, millis.NonNegative → Spells (.record [(name, .number millis)]) (make millis))
    (hkey : (key == name) = true) (h : ofMillis make key v = .ok step) : Spells (.record [(key, v)]) step := by
  rw [beq_iff_eq.mp hkey]
  unfold ofMillis at h
  split at h
  · rename_i millis
    split at h
    · rename_i hduration
      cases h
      exact hmake ((Binary64.isDuration_iff millis).mp hduration)
    · cases h
  · cases h

theorem ofMillis_of_nonNegative {make : Binary64 → SessionStep} {millis : Binary64} (h : millis.NonNegative) :
    ofMillis make key (.number millis) = .ok (make millis) := by
  rw [ofMillis, if_pos ((Binary64.isDuration_iff millis).mpr h)]

theorem spells_of_ofField (h : ofField key v = .ok step) : Spells (.record [(key, v)]) step := by
  unfold ofField at h
  split at h
  · rename_i hkey
    exact spells_of_ofText .type hkey h
  split at h
  · rename_i hkey
    exact spells_of_ofText .input hkey h
  split at h
  · rename_i hkey
    exact spells_of_ofText .output hkey h
  split at h
  · rename_i hkey
    exact spells_of_ofMillis .wait hkey h
  split at h
  · rename_i hkey
    exact spells_of_ofMillis .pause hkey h
  split at h
  · rename_i hkey
    rw [beq_iff_eq.mp hkey]
    split at h
    · cases h
      exact .clear
    · cases h
  · cases h

theorem ofValue_eq_ok_iff : ofValue v = .ok step ↔ Spells v step := by
  constructor
  · intro h
    unfold ofValue at h
    split at h
    · exact spells_of_ofField h
    · cases h
    · cases h
  · intro h
    cases h with
    | type data => rfl
    | input data => rfl
    | output data => rfl
    | wait hn => exact ofMillis_of_nonNegative hn
    | pause hn => exact ofMillis_of_nonNegative hn
    | clear => rfl

theorem isStep_iff : IsStep v ↔ ∃ step, ofValue v = .ok step := by
  simp only [IsStep, ofValue_eq_ok_iff]

end

/-! ## Lists of elements -/

structure Blames (items before : List Value) (v : Value) (after : List Value) : Prop where
  split : items = before ++ v :: after
  before_steps : ∀ w ∈ before, IsStep w
  no_step : ¬IsStep v

theorem ofValues_spells : ∀ {items : List Value} {steps : List SessionStep} {index : Nat},
    ofValues index items = .ok steps → List.Forall₂ Spells items steps
  | [], _, _, h => by
    cases h
    exact .nil
  | v :: rest, steps, index, h => by
    rw [ofValues] at h
    split at h
    · cases h
    · rename_i step hstep
      split at h
      · cases h
      · rename_i more hmore
        cases h
        exact .cons (ofValue_eq_ok_iff.mp hstep) (ofValues_spells hmore)

theorem isStep_of_spells {items : List Value} {steps : List SessionStep} (h : List.Forall₂ Spells items steps) :
    ∀ v ∈ items, IsStep v := by
  have hboth : List.Forall₂ (fun v step => IsStep v ∧ Spells v step) items steps :=
    h.imp fun _ step hstep => ⟨⟨step, hstep⟩, hstep⟩
  exact (List.forall₂_and_left items steps).mp hboth |>.1

theorem ofValues_blames : ∀ {items : List Value} {index : Nat} {e : ScriptError},
    ofValues index items = .error e → ∃ before v after fault, Blames items before v after ∧
      ofValue v = .error fault ∧ e = .step (index + before.length) fault
  | v :: rest, index, e, h => by
    rw [ofValues] at h
    split at h
    · rename_i fault hfault
      cases h
      refine ⟨[], v, rest, fault, ⟨rfl, List.forall_mem_nil _, ?_⟩, hfault, rfl⟩
      rw [isStep_iff]
      rintro ⟨step, hstep⟩
      rw [hfault] at hstep
      cases hstep
    · rename_i step hstep
      split at h
      · -- the rest is numbered from the next index, and so is the fault in it
        rename_i e' he'
        cases h
        obtain ⟨before, w, after, fault, hblames, hfault, rfl⟩ := ofValues_blames he'
        refine ⟨v :: before, w, after, fault, ⟨?_, ?_, hblames.no_step⟩, hfault, ?_⟩
        · rw [hblames.split]
          rfl
        · exact List.forall_mem_cons.mpr ⟨isStep_iff.mpr ⟨step, hstep⟩, hblames.before_steps⟩
        · rw [List.length_cons, Nat.add_assoc, Nat.add_comm 1]
      · cases h

theorem ofValues_of_steps {items : List Value} (h : ∀ v ∈ items, IsStep v) (index : Nat) :
    ∃ steps, ofValues index items = .ok steps := by
  cases heq : ofValues index items with
  | ok steps => exact ⟨steps, rfl⟩
  | error e =>
    obtain ⟨before, v, after, fault, hblames, -⟩ := ofValues_blames heq
    exact absurd (h v (by simp [hblames.split])) hblames.no_step

end SessionStep

/-! ## Documents -/

inductive Value.Lists : Value → List Value → Prop
  | list (items : List Value) : Lists (.list items) items
  | field {fields : List (Text × Value)} {items : List Value}
      (h : field? (ofString "steps") fields = some (.list items)) : Lists (.record fields) items

theorem Value.Lists.unique {document : Value} {items items' : List Value} (h : document.Lists items)
    (h' : document.Lists items') : items = items' := by
  cases h with
  | list =>
    cases h'
    rfl
  | field h =>
    cases h' with
    | field h' =>
      rw [h] at h'
      cases h'
      rfl

namespace SessionStep

theorem ofDocument_of_lists {document : Value} {items : List Value} (h : document.Lists items) :
    ofDocument document = ofValues 0 items := by
  cases h with
  | list => rfl
  | field h => simp only [ofDocument, h, Option.getD_some]

theorem ofDocument_of_no_list {document : Value} (h : ∀ items, ¬document.Lists items) :
    ofDocument document = .error .notList := by
  cases document with
  | list items => exact absurd (.list items) (h items)
  | record fields =>
    simp only [ofDocument]
    cases hf : Value.field? (ofString "steps") fields with
    | none => rfl
    | some v =>
      cases v with
      | list items => exact absurd (.field hf) (h items)
      | _ => rfl
  | _ => rfl

/-- **A script is accepted exactly if its elements are steps, and the first that is none is blamed.**  Then the steps
are one for each element, with its name and value.  Otherwise the error names the place of the first element that is
no step, in its message too; if there is no list of elements, it names none. -/
theorem ofDocument_accepts_steps (document : Value) :
    ((∃ steps, ofDocument document = .ok steps) ↔ ∃ items, document.Lists items ∧ ∀ v ∈ items, IsStep v) ∧
    (∀ steps, ofDocument document = .ok steps →
      ∃ items, document.Lists items ∧ items.length = steps.length ∧ List.Forall₂ Spells items steps) ∧
    ∀ e, ofDocument document = .error e →
      (∀ items, ¬document.Lists items) ∧ e.stepIndex? = none ∧ ¬ofString "step " <+: e.message ∨
      ∃ items before v after fault, document.Lists items ∧ Blames items before v after ∧
        e.stepIndex? = some before.length ∧ ofValue v = .error fault ∧
        e.message = ofString "step " ++ Text.digits 10 before.length ++ ofString ": " ++ fault.message := by
  by_cases hlist : ∃ items, document.Lists items
  · obtain ⟨items, hitems⟩ := hlist
    rw [ofDocument_of_lists hitems]
    refine ⟨⟨?_, ?_⟩, ?_, ?_⟩
    · rintro ⟨steps, h⟩
      exact ⟨items, hitems, isStep_of_spells (ofValues_spells h)⟩
    · rintro ⟨items', hitems', hsteps⟩
      rw [hitems.unique hitems']
      exact ofValues_of_steps hsteps 0
    · intro steps h
      have hspells := ofValues_spells h
      exact ⟨items, hitems, hspells.length_eq, hspells⟩
    · intro e h
      obtain ⟨before, v, after, fault, hblames, hfault, rfl⟩ := ofValues_blames h
      rw [Nat.zero_add]
      exact Or.inr ⟨items, before, v, after, fault, hitems, hblames, rfl, hfault, rfl⟩
  · have hnone : ∀ items, ¬document.Lists items := fun items h => hlist ⟨items, h⟩
    rw [ofDocument_of_no_list hnone]
    refine ⟨⟨?_, ?_⟩, ?_, ?_⟩
    · rintro ⟨steps, h⟩
      cases h
    · rintro ⟨items, hitems, -⟩
      exact absurd hitems (hnone items)
    · intro steps h
      cases h
    · intro e h
      cases h
      exact Or.inl ⟨hnone, rfl, by decide⟩

end SessionStep

/-! ## Formats -/

namespace Path

variable {path name : Text}

theorem base_append (hpath : path ≠ []) (hlast : path.getLast? ≠ some 0x2F) (hname : name ≠ []) (hslash : 0x2F ∉ name) :
    ∃ front, front ≠ [] ∧ base (path ++ name) = front ++ name := by
  have hend : (path ++ name).getLast? ≠ some 0x2F := by
    intro h
    rw [← List.dropLast_concat_getLast hname, ← List.append_assoc, List.getLast?_concat] at h
    exact hslash (Option.some.inj h ▸ List.getLast_mem hname)
  refine ⟨(path.reverse.takeWhile (· != 0x2F)).reverse, ?_, ?_⟩
  · rw [← List.head?_reverse] at hlast
    cases hr : path.reverse with
    | nil => exact absurd (List.reverse_eq_nil_iff.mp hr) hpath
    | cons u front =>
      have hu : u ≠ 0x2F := by simpa [hr] using hlast
      simp [hu]
  · unfold base
    rw [dropSlashes_of_getLast? hend, List.reverse_append, List.takeWhile_append_of_pos]
    · simp
    · intro u hu
      simpa using fun h : u = 0x2F => hslash (h ▸ List.mem_reverse.mp hu)

/-- What the last dot parts off is the extension. -/
theorem ext_append (hpath : path ≠ []) (hlast : path.getLast? ≠ some 0x2F) (hname : name ≠ []) (hdot : 0x2E ∉ name)
    (hslash : 0x2F ∉ name) : ext (path ++ 0x2E :: name) = 0x2E :: name := by
  have hslash' : 0x2F ∉ 0x2E :: name := by simpa using hslash
  obtain ⟨front, hfront, hbase⟩ := base_append hpath hlast (List.cons_ne_nil 0x2E name) hslash'
  have hafter : (front ++ 0x2E :: name).reverse.takeWhile (· != 0x2E) = name.reverse := by
    simp only [List.reverse_append, List.reverse_cons, List.append_assoc, List.singleton_append]
    rw [List.takeWhile_append_of_pos]
    · simp
    · intro u hu
      simpa using fun h : u = 0x2E => hdot (h ▸ List.mem_reverse.mp hu)
  have hfront := List.length_pos_iff.mpr hfront
  have hlong : ¬(front ++ 0x2E :: name).length ≤ name.reverse.length + 1 := by
    simp only [List.length_append, List.length_cons, List.length_reverse]
    omega
  have hdots : (front ++ 0x2E :: name == [0x2E, 0x2E]) = false := by
    refine beq_eq_false_iff_ne.mpr fun h => ?_
    have hlen := congrArg List.length h
    have hname := List.length_pos_iff.mpr hname
    simp only [List.length_append, List.length_cons, List.length_nil] at hlen
    omega
  simp only [ext, hbase, hafter, hdots, hlong, decide_false, Bool.or_self, Bool.false_eq_true, if_false,
    List.reverse_reverse]

end Path

theorem ScriptFormat.ofPath_extension {path : Text} (hpath : path ≠ []) (hlast : path.getLast? ≠ some 0x2F)
    (f : ScriptFormat) : ofPath (path ++ Text.ofString ("." ++ f.extension)) = f := by
  have hdot : Text.ofString ("." ++ f.extension) = 0x2E :: Text.ofString f.extension := by
    cases f <;> decide
  rw [hdot, ofPath, Path.hasExt]
  rw [Path.ext_append hpath hlast] <;> cases f <;> decide

end Typeahead
