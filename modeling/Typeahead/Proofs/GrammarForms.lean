import Typeahead.Proofs.GrammarSegments

/-!
# The forms of the control grammar

Each form of the grammar is put together from single units, runs, sequences and choices, which are patterns of their
own (`Pattern.unit_followedBy_forward`, `Pattern.run_followedBy_forward`).  So the grammar, which tries one form after
the other, is the pattern that a regular expression for it stands for (`Control.pattern_eq_expression`).
-/

namespace Typeahead

namespace Control

/-! ## Building blocks -/

def unitThen (p : CodeUnit → Bool) (next : Text → Option Nat) : Text → Option Nat
  | [] => none
  | u :: t => if p u then (next t).map (1 + ·) else none

def unitsThen (p : CodeUnit → Bool) (next : Text → Option Nat) : Nat → Text → Option Nat
  | 0 => next
  | n + 1 => unitThen p (unitsThen p next n)

def orNothing (f : Text → Option Nat) (t : Text) : Option Nat := f t <|> some 0

/-- Escape and a unit, or one unit that stands for the two, then what `next` asks for. -/
def introduced (opens opensC1 : CodeUnit → Bool) (next : Text → Option Nat) (t : Text) : Option Nat :=
  unitThen (· == escape) (unitThen opens next) t <|> unitThen opensC1 next t

theorem map_add_map_add (o : Option Nat) (m n : Nat) : (o.map (n + ·)).map (m + ·) = o.map (m + n + ·) := by
  rw [Option.map_map]
  exact congrArg (o.map ·) (funext fun k => (Nat.add_assoc m n k).symm)

theorem unit?_eq (p : CodeUnit → Bool) : unit? p = unitThen p fun _ => some 0 := by
  funext t
  cases t <;> rfl

theorem orNothing_eq (f : Text → Option Nat) (t : Text) : orNothing f t = some ((f t).getD 0) := by
  unfold orNothing
  cases f t <;> rfl

theorem runThen_cons (p : CodeUnit → Bool) (next : Text → Option Nat) (u : CodeUnit) (t : Text) :
    runThen p next (u :: t) = if p u then (runThen p next t).map (1 + ·) else next (u :: t) := by
  unfold runThen
  by_cases hu : p u = true
  · rw [List.dropWhile_cons_of_pos hu, List.takeWhile_cons_of_pos hu, if_pos hu, map_add_map_add,
      List.length_cons, Nat.add_comm 1]
  · rw [List.dropWhile_cons_of_neg hu, List.takeWhile_cons_of_neg hu, if_neg hu]
    simp

theorem unitsThen_eq (p : CodeUnit → Bool) (next : Text → Option Nat) (n : Nat) (t : Text) :
    unitsThen p next n t =
      if (t.take n).length == n && (t.take n).all p then (next (t.drop n)).map (n + ·) else none := by
  induction n generalizing t with
  | zero => simp [unitsThen]
  | succ n ih =>
    cases t with
    | nil => simp [unitsThen, unitThen]
    | cons u t =>
      rw [unitsThen, unitThen, ih]
      by_cases hu : p u = true
      · have hlen : ((t.take n).length + 1 == n + 1) = ((t.take n).length == n) := by
          rw [Bool.eq_iff_iff, beq_iff_eq, beq_iff_eq, Nat.add_right_cancel_iff]
        simp only [hu, if_true, List.take_succ_cons, List.drop_succ_cons, List.length_cons, List.all_cons,
          Bool.true_and, hlen]
        split
        · rw [map_add_map_add, Nat.add_comm 1]
        · rfl
      · simp [hu]

/-- A form that tells escape and a unit from the unit that stands for the two. -/
theorem eq_introduced {opens opensC1 : CodeUnit → Bool} {next f : Text → Option Nat} (hC1 : opensC1 escape = false)
    (hnil : f [] = none) (hescape : f [escape] = none)
    (hpair : ∀ v t, f (escape :: v :: t) = if opens v then (next t).map (2 + ·) else none)
    (hone : ∀ u t, u ≠ escape → f (u :: t) = if opensC1 u then (next t).map (1 + ·) else none) :
    f = introduced opens opensC1 next := by
  funext t
  rcases t with _ | ⟨u, t⟩
  · exact hnil
  · by_cases hu : u = escape
    · subst hu
      rcases t with _ | ⟨v, t⟩
      · simp [hescape, introduced, unitThen, hC1]
      · rw [hpair]
        by_cases hv : opens v = true <;> simp [introduced, unitThen, hC1, hv, Function.comp_def, ← Nat.add_assoc]
    · rw [hone u t hu]
      simp [introduced, unitThen, hu]

/-! ## Forms -/

theorem terminator?_eq : terminator? = introduced (· == 0x5C) (· == 0x9C) fun _ => some 0 := by
  refine eq_introduced rfl rfl rfl ?_ ?_
  · intro v t
    by_cases hv : v = 0x5C <;> simp [terminator?, escape, hv]
  · intro u t hu
    have hu : u ≠ 0x1B := hu
    by_cases ho : u = 0x9C <;> simp [terminator?, hu, ho]

theorem bellOrTerminator?_eq : bellOrTerminator? = fun t => unit? (· == bell) t <|> terminator? t := by
  funext t
  rcases t with _ | ⟨u, t⟩
  · rfl
  · by_cases hu : u = 0x07 <;> simp [bellOrTerminator?, unit?, bell, hu]

theorem palette?_eq : palette? = unitThen (· == escape) (unitThen (· == 0x5D) fun t =>
    unitThen (· == 0x50) (unitsThen CodeUnit.isHexDigit (orNothing bellOrTerminator?) 7) t <|>
      unitThen (· == 0x52) (orNothing bellOrTerminator?) t) := by
  funext t
  rcases t with _ | ⟨u, t⟩
  · rfl
  by_cases hu : u = 0x1B
  · subst hu
    rcases t with _ | ⟨v, _ | ⟨w, t⟩⟩
    · rfl
    · by_cases hv : v = 0x5D <;> simp [palette?, unitThen, escape, hv]
    · by_cases hv : v = 0x5D
      · by_cases hP : w = 0x50
        · simp [palette?, unitThen, unitsThen_eq, orNothing_eq, escape, hv, hP, ← Nat.add_assoc]
        · by_cases hR : w = 0x52 <;> simp [palette?, unitThen, orNothing_eq, escape, hv, hP, hR, ← Nat.add_assoc]
      · simp [palette?, unitThen, escape, hv]
  · simp [palette?, unitThen, escape, hu]

theorem systemCommand?_eq : systemCommand? = introduced (· == 0x5D) (· == 0x9D) commandText? := by
  refine eq_introduced rfl rfl rfl ?_ ?_
  · intro v t
    by_cases hv : v = 0x5D <;> simp [systemCommand?, escape, hv]
  · intro u t hu
    have hu : u ≠ 0x1B := hu
    by_cases ho : u = 0x9D <;> simp [systemCommand?, hu, ho]

theorem controlString?_eq : controlString? = introduced opensString opensStringC1 stringText? := by
  refine eq_introduced rfl rfl rfl ?_ ?_
  · intro v t
    rfl
  · intro u t hu
    rw [controlString?]
    exact hu

theorem controlSequence?_eq : controlSequence? = introduced (· == 0x5B) (· == 0x9B) sequenceBody? := by
  refine eq_introduced rfl rfl rfl ?_ ?_
  · intro v t
    by_cases hv : v = 0x5B <;> simp [controlSequence?, escape, hv]
  · intro u t hu
    have hu : u ≠ 0x1B := hu
    by_cases ho : u = 0x9B <;> simp [controlSequence?, hu, ho]

theorem isShortFinal_of_isIntermediate {u : CodeUnit} (h : isIntermediate u = true) : isShortFinal u = false := by
  simp only [isIntermediate, Bool.and_eq_true, decide_eq_true_eq, UInt16.le_iff_toNat_le, UInt16.reduceToNat] at h
  simp [isShortFinal, UInt16.le_iff_toNat_le, ← UInt16.toNat_inj]
  omega

theorem escapeSequence?_eq : escapeSequence? = unitThen (· == escape) fun t =>
    unitThen isIntermediate (runThen isIntermediate (unit? isLongFinal)) t <|> unit? isShortFinal t := by
  funext t
  rcases t with _ | ⟨u, t⟩
  · rfl
  by_cases hu : u = 0x1B
  · subst hu
    rcases t with _ | ⟨v, t⟩
    · rfl
    · by_cases hv : isIntermediate v = true
      · simp [escapeSequence?, unitThen, unit?, escape, hv, isShortFinal_of_isIntermediate hv, Function.comp_def,
          ← Nat.add_assoc]
      · by_cases hs : isShortFinal v = true <;> simp [escapeSequence?, unitThen, unit?, escape, hv, hs]
  · simp [escapeSequence?, unitThen, escape, hu]

end Control

/-! ## Patterns that look only ahead -/

namespace Pattern

open Control (unit? unitThen unitsThen runThen orNothing escape)

variable (p : CodeUnit → Bool) (f g : Text → Option Nat)

theorem unit_eq_forward : unit p = forward (unit? p) := by
  funext before after
  cases after <;> rfl

theorem forward_followedBy : (forward f).followedBy (forward g) =
    forward fun t => (f t).bind fun n => (g (t.drop n)).map (n + ·) := by
  funext before after
  simp only [followedBy, forward, Option.bind_eq_bind, Option.map_eq_bind]
  rfl

theorem forward_orElse : (forward f).orElse (forward g) = forward fun t => f t <|> g t := rfl

theorem unit_followedBy : (unit p).followedBy (forward g) = forward (unitThen p g) := by
  rw [unit_eq_forward, forward_followedBy]
  congr 1
  funext t
  rcases t with _ | ⟨u, t⟩
  · rfl
  · by_cases hu : p u = true <;> simp [unit?, unitThen, hu]

theorem run_followedBy : (run p).followedBy (forward g) = forward (runThen p g) := by
  have hrun : run p = forward fun t => some (t.takeWhile p).length := rfl
  rw [hrun, forward_followedBy]
  congr 1
  funext t
  have hdrop : t.drop (t.takeWhile p).length = t.dropWhile p := by
    have h : (t.takeWhile p ++ t.dropWhile p).drop (t.takeWhile p).length = t.dropWhile p := List.drop_left
    rwa [List.takeWhile_append_dropWhile] at h
  rw [Option.bind_some, hdrop, runThen]

theorem advance_advance (before after : Text) (m n : Nat) :
    advance (advance before after m) (after.drop m) n = advance before after (m + n) := by
  simp [advance, List.take_add]

theorem followedBy_assoc (p q r : Pattern) : (p.followedBy q).followedBy r = p.followedBy (q.followedBy r) := by
  funext before after
  simp only [followedBy, Option.bind_eq_bind, Option.bind_assoc, Option.bind_some, advance_advance, List.drop_drop,
    Nat.add_assoc, Option.pure_def]

@[simp] theorem empty_followedBy (p : Pattern) : empty.followedBy p = p := by
  funext before after
  simp [followedBy, empty, advance]

def units (p : CodeUnit → Bool) : Nat → Pattern
  | 0 => empty
  | n + 1 => (unit p).followedBy (units p n)

theorem units_followedBy : ∀ n, (units p n).followedBy (forward g) = forward (unitsThen p g n)
  | 0 => empty_followedBy _
  | n + 1 => by rw [units, followedBy_assoc, units_followedBy n, unit_followedBy, unitsThen]

def exactly (u : CodeUnit) : Pattern := unit (· == u)

def optional (p : Pattern) : Pattern := p.orElse empty

theorem forward_optional : (forward f).optional = forward (orNothing f) := rfl

def introduced (opens opensC1 : CodeUnit → Bool) (next : Pattern) : Pattern :=
  ((exactly escape).followedBy ((unit opens).followedBy next)).orElse ((unit opensC1).followedBy next)

theorem introduced_forward (opens opensC1 : CodeUnit → Bool) :
    introduced opens opensC1 (forward f) = forward (Control.introduced opens opensC1 f) := by
  rw [introduced, exactly, unit_followedBy, unit_followedBy, unit_followedBy, forward_orElse]
  rfl

end Pattern

/-! ## The grammar as an expression -/

namespace Control.Grammar

open Pattern (unit run exactly units)

def terminator : Pattern := .introduced (· == 0x5C) (· == 0x9C) .empty

def bellOrTerminator : Pattern := (exactly bell).orElse terminator

def palette : Pattern :=
  (exactly escape).followedBy <| (exactly 0x5D).followedBy <|
    ((exactly 0x50).followedBy ((units CodeUnit.isHexDigit 7).followedBy bellOrTerminator.optional)).orElse
      ((exactly 0x52).followedBy bellOrTerminator.optional)

def systemCommand : Pattern :=
  .introduced (· == 0x5D) (· == 0x9D) ((run fun u => !(u == bell || endsString u)).followedBy bellOrTerminator)

def controlString : Pattern :=
  .introduced opensString opensStringC1 ((run fun u => !endsString u).followedBy terminator)

def controlSequence : Pattern :=
  .introduced (· == 0x5B) (· == 0x9B) ((run isParameter).followedBy ((run isIntermediate).followedBy (unit isFinal)))

def escapeSequence : Pattern :=
  (exactly escape).followedBy <|
    ((unit isIntermediate).followedBy ((run isIntermediate).followedBy (unit isLongFinal))).orElse (unit isShortFinal)

theorem terminator_eq : terminator = .forward terminator? := by
  rw [terminator?_eq, ← Pattern.introduced_forward]
  rfl

theorem bellOrTerminator_eq : bellOrTerminator = .forward bellOrTerminator? := by
  rw [bellOrTerminator?_eq, ← Pattern.forward_orElse, ← Pattern.unit_eq_forward, ← terminator_eq]
  rfl

theorem palette_eq : palette = .forward palette? := by
  rw [palette, bellOrTerminator_eq, Pattern.forward_optional, Pattern.units_followedBy]
  simp only [exactly, Pattern.unit_followedBy, Pattern.forward_orElse]
  rw [palette?_eq]

theorem systemCommand_eq : systemCommand = .forward systemCommand? := by
  rw [systemCommand, bellOrTerminator_eq, Pattern.run_followedBy, Pattern.introduced_forward, systemCommand?_eq]
  rfl

theorem controlString_eq : controlString = .forward controlString? := by
  rw [controlString, terminator_eq, Pattern.run_followedBy, Pattern.introduced_forward, controlString?_eq]
  rfl

theorem controlSequence_eq : controlSequence = .forward controlSequence? := by
  rw [controlSequence, Pattern.unit_eq_forward, Pattern.run_followedBy, Pattern.run_followedBy,
    Pattern.introduced_forward, controlSequence?_eq]
  rfl

theorem escapeSequence_eq : escapeSequence = .forward escapeSequence? := by
  rw [escapeSequence, Pattern.unit_eq_forward isLongFinal, Pattern.run_followedBy, Pattern.unit_followedBy,
    Pattern.unit_eq_forward isShortFinal, Pattern.forward_orElse, exactly, Pattern.unit_followedBy, escapeSequence?_eq]

end Control.Grammar

open Control.Grammar in
/-- **The control grammar as an expression.**  The forms are tried in this order, and the first that matches wins. -/
theorem Control.pattern_eq_expression :
    pattern = (palette.orElse <| systemCommand.orElse <| controlString.orElse <| controlSequence.orElse <|
      escapeSequence.orElse <| .unit isSingle) := by
  rw [palette_eq, systemCommand_eq, controlString_eq, controlSequence_eq, escapeSequence_eq, Pattern.unit_eq_forward]
  rfl

end Typeahead
