import Typeahead.Proofs.GrammarForms

/-!
# Spans of two texts put together

What a form of the control grammar matches at a place depends on no more text than it matches, except that
more text may let it match more (`Control.Local`).  Single units, runs, sequences and choices all keep this,
so the grammar has it too (`Control.length?_local`).  Hence the spans of two texts put together are those of
the first and then those of the second, if none lies across the joint (`Pattern.spans_append`).
-/

namespace Typeahead

namespace Control

/-- More text behind a match takes no match away, and a match that ends inside a text is the match of that
text alone. -/
structure Local (f : Text → Option Nat) : Prop where
  none_of_append : ∀ {a b : Text}, f (a ++ b) = none → f a = none
  some_of_append : ∀ {a b : Text} {n : Nat}, f (a ++ b) = some n → n ≤ a.length → f a = some n

namespace Local

variable {f g next : Text → Option Nat} {p : CodeUnit → Bool}

theorem ne_zero (h : Local f) (hnil : f [] = none) (t : Text) : f t ≠ some 0 := by
  intro h0
  have hz : f [] = some 0 := h.some_of_append (a := []) h0 (Nat.le_refl 0)
  rw [hnil] at hz
  cases hz

theorem nothing : Local fun _ => some 0 := ⟨id, fun h _ => h⟩

theorem orElse (hf : Local f) (hg : Local g) : Local fun t => f t <|> g t where
  none_of_append {a b} h := by
    rw [Option.orElse_eq_orElse, Option.orElse_eq_or, Option.or_eq_none_iff] at h ⊢
    exact ⟨hf.none_of_append h.1, hg.none_of_append h.2⟩
  some_of_append {a b n} h hn := by
    cases hab : f (a ++ b) with
    | some m =>
      rw [hab] at h
      obtain rfl : m = n := by simpa using h
      simp [hf.some_of_append hab hn]
    | none =>
      -- the first form fails on the whole text, so it fails on the first part
      rw [hab] at h
      simp [hf.none_of_append hab, hg.some_of_append (by simpa using h) hn]

theorem unitThen (h : Local next) : Local (unitThen p next) where
  none_of_append {a b} hab := by
    cases a with
    | nil => rfl
    | cons u a =>
      rw [List.cons_append, Control.unitThen] at hab
      rw [Control.unitThen]
      by_cases hu : p u = true
      · rw [if_pos hu, Option.map_eq_none_iff] at hab ⊢
        exact h.none_of_append hab
      · exact if_neg hu
  some_of_append {a b n} hab hn := by
    cases a with
    | nil =>
      -- a match has at least the first unit
      obtain rfl : n = 0 := Nat.le_zero.mp hn
      cases b <;> simp [Control.unitThen] at hab
    | cons u a =>
      rw [List.cons_append, Control.unitThen] at hab
      rw [Control.unitThen]
      by_cases hu : p u = true
      · rw [if_pos hu, Option.map_eq_some_iff] at hab
        obtain ⟨m, hm, rfl⟩ := hab
        rw [List.length_cons] at hn
        rw [if_pos hu, h.some_of_append hm (by omega)]
        rfl
      · rw [if_neg hu] at hab
        cases hab

theorem unitsThen (h : Local next) : ∀ n, Local (unitsThen p next n)
  | 0 => h
  | n + 1 => (unitsThen h n).unitThen

theorem unit : Local (unit? p) := unit?_eq p ▸ nothing.unitThen

theorem orNothing (h : Local f) : Local (orNothing f) := h.orElse nothing

theorem runThen (h : Local next) (hnil : next [] = none) : Local (runThen p next) where
  none_of_append {a b} hab := by
    induction a with
    | nil => simp [Control.runThen, hnil]
    | cons u a ih =>
      rw [List.cons_append, runThen_cons] at hab
      rw [runThen_cons]
      by_cases hu : p u = true
      · rw [if_pos hu, Option.map_eq_none_iff] at hab ⊢
        exact ih hab
      · rw [if_neg hu] at hab ⊢
        exact h.none_of_append (a := u :: a) hab
  some_of_append {a b n} hab hn := by
    induction a generalizing n with
    | nil =>
      -- what follows a run has at least one unit
      obtain ⟨m, hm, hlen⟩ := Option.map_eq_some_iff.mp hab
      rw [List.length_nil] at hn
      obtain rfl : m = 0 := by omega
      exact absurd hm (h.ne_zero hnil _)
    | cons u a ih =>
      rw [List.cons_append, runThen_cons] at hab
      rw [runThen_cons]
      by_cases hu : p u = true
      · rw [if_pos hu, Option.map_eq_some_iff] at hab ⊢
        obtain ⟨m, hm, rfl⟩ := hab
        rw [List.length_cons] at hn
        exact ⟨m, ih hm (by omega), rfl⟩
      · rw [if_neg hu] at hab ⊢
        exact h.some_of_append (a := u :: a) hab hn

theorem introduced {opens opensC1 : CodeUnit → Bool} (h : Local next) : Local (introduced opens opensC1 next) :=
  h.unitThen.unitThen.orElse h.unitThen

end Local

/-! ## The forms of the grammar -/

theorem terminator?_local : Local terminator? := terminator?_eq ▸ Local.nothing.introduced

theorem bellOrTerminator?_local : Local bellOrTerminator? := bellOrTerminator?_eq ▸ Local.unit.orElse terminator?_local

theorem palette?_local : Local palette? := by
  have hend := bellOrTerminator?_local.orNothing
  rw [palette?_eq]
  exact ((hend.unitsThen 7).unitThen.orElse hend.unitThen).unitThen.unitThen

theorem systemCommand?_local : Local systemCommand? := by
  have hcommand : Local commandText? := bellOrTerminator?_local.runThen rfl
  exact systemCommand?_eq ▸ hcommand.introduced

theorem controlString?_local : Local controlString? := by
  have hstring : Local stringText? := terminator?_local.runThen rfl
  exact controlString?_eq ▸ hstring.introduced

theorem controlSequence?_local : Local controlSequence? := by
  have hbody : Local sequenceBody? := (Local.unit.runThen rfl).runThen rfl
  exact controlSequence?_eq ▸ hbody.introduced

theorem escapeSequence?_local : Local escapeSequence? := by
  have hlong : Local (runThen isIntermediate (unit? isLongFinal)) := Local.unit.runThen rfl
  rw [escapeSequence?_eq]
  exact (hlong.unitThen.orElse .unit).unitThen

theorem length?_local : Local length? :=
  palette?_local.orElse (systemCommand?_local.orElse (controlString?_local.orElse
    (controlSequence?_local.orElse (escapeSequence?_local.orElse .unit))))

end Control

namespace Pattern

variable {f : Text → Option Nat}

/-- If no span of two texts put together lies across the joint, the spans are those of the first text and
then those of the second. -/
theorem spans_append (hf : Control.Local f) (hnil : f [] = none) {a b : Text}
    (hcross : ∀ s ∈ (forward f).classifier.spans (a ++ b), s.index < a.length → s.stop ≤ a.length) :
    (forward f).classifier.spans (a ++ b) =
      (forward f).classifier.spans a ++ ((forward f).classifier.spans b).map (·.shift a.length) := by
  rcases Nat.eq_zero_or_pos b.length with hb | hb
  · obtain rfl := List.eq_nil_of_length_eq_zero hb
    simp [Classifier.spans_nil]
  generalize htext : a ++ b = text at hcross ⊢
  induction text using head_induction (hf.ne_zero hnil) generalizing a with
  | nil =>
    obtain ⟨rfl, rfl⟩ := List.append_eq_nil_iff.mp htext
    simp [Classifier.spans_nil]
  | unmatched u t h ih =>
    rcases List.append_eq_cons_iff.mp htext with ⟨rfl, rfl⟩ | ⟨a, rfl, rfl⟩
    · simp [Classifier.spans_nil, Span.shift]
    · rw [spans_of_none h] at hcross ⊢
      have hrest (s : Span) (hs : s ∈ (forward f).classifier.spans (a ++ b)) (hlt : s.index < a.length) :
          s.stop ≤ a.length := by
        have hstop := hcross _ (List.mem_map_of_mem hs) (Nat.succ_lt_succ hlt)
        rw [Span.shift_stop] at hstop
        exact Nat.le_of_succ_le_succ hstop
      rw [spans_of_none (hf.none_of_append h), ih rfl hrest, List.map_append, List.map_map]
      rfl
  | matched u t n h ih =>
    rcases List.append_eq_cons_iff.mp htext with ⟨rfl, rfl⟩ | ⟨a, rfl, rfl⟩
    · simp [Classifier.spans_nil, Span.shift]
    · rw [spans_of_some h] at hcross ⊢
      have hn : n + 1 ≤ (u :: a).length := by
        have hstop := hcross _ (List.mem_cons_self ..) (Nat.succ_pos _)
        simp only [Span.stop, Span.length, List.length_take, List.length_cons, List.length_append] at hstop ⊢
        omega
      rw [← List.cons_append, List.take_append_of_le_length hn, List.length_take_of_le hn,
        List.drop_append_of_le_length hn] at hcross ih ⊢
      have hrest (s : Span) (hs : s ∈ (forward f).classifier.spans ((u :: a).drop (n + 1) ++ b))
          (hlt : s.index < ((u :: a).drop (n + 1)).length) : s.stop ≤ ((u :: a).drop (n + 1)).length := by
        rw [List.length_drop] at hlt ⊢
        have hstop := hcross _ (List.mem_cons_of_mem _ (List.mem_map_of_mem hs)) (Nat.add_lt_of_lt_sub hlt)
        rw [Span.shift_stop] at hstop
        exact Nat.le_sub_of_add_le hstop
      rw [spans_of_some (hf.some_of_append h hn), ih rfl hrest, List.map_append, List.map_map,
        List.length_take_of_le hn, List.cons_append]
      congr 3
      funext s
      rw [Function.comp_apply, Span.shift_shift, List.length_drop, Nat.sub_add_cancel hn]

end Pattern

/-- **The spans of two texts put together** are those of the first and then those of the second, moved behind
it, unless one of them begins in the first text and ends in the second. -/
theorem Classifier.standard_spans_append {a b : Text}
    (h : ∀ s ∈ standard.spans (a ++ b), ¬ (s.index < a.length ∧ a.length < s.stop)) :
    standard.spans (a ++ b) = standard.spans a ++ (standard.spans b).map (·.shift a.length) := by
  have hcross : ∀ s ∈ standard.spans (a ++ b), s.index < a.length → s.stop ≤ a.length := by
    intro s hs hlt
    exact Nat.le_of_not_lt fun hstop => h s hs ⟨hlt, hstop⟩
  exact Pattern.spans_append Control.length?_local rfl hcross

def endsInEscape : Text := [0x61, 0x1B, 0x5B, 0x33, 0x31, 0x6D, 0x1B, 0x5D, 0x52, 0x1B]

def beginsWithEscape : Text := [0x1B, 0x5B, 0x4B, 0x62, 0x08]

theorem Classifier.standard_spans_append_at_escapes :
    (∀ s ∈ standard.spans (endsInEscape ++ beginsWithEscape),
      ¬ (s.index < endsInEscape.length ∧ endsInEscape.length < s.stop)) ∧
    standard.spans (endsInEscape ++ beginsWithEscape) = [⟨1, [0x1B, 0x5B, 0x33, 0x31, 0x6D]⟩,
      ⟨6, [0x1B, 0x5D, 0x52]⟩, ⟨10, [0x1B, 0x5B, 0x4B]⟩, ⟨14, [0x08]⟩] := by
  have hcross : ∀ s ∈ standard.spans (endsInEscape ++ beginsWithEscape),
      ¬ (s.index < endsInEscape.length ∧ endsInEscape.length < s.stop) := by decide +kernel
  refine ⟨hcross, ?_⟩
  rw [standard_spans_append hcross]
  decide +kernel

end Typeahead
