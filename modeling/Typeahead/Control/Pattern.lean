import Typeahead.Control.Span

/-!
# Patterns

A pattern tells, for each place in a text, the length of its preferred match there.  The match may
be empty, or there may be none.  `Pattern.classifier` searches a text for the first place where the
match is not empty; it keeps nothing from one search to the next.
-/

namespace Typeahead

/-- The length of the preferred match at a place in a text.  The place is given by the units before
it, nearest first, and the units after it. -/
abbrev Pattern := (before after : Text) → Option Nat

namespace Pattern

/-! ## Search -/

/-- The first place in `after` where the pattern has a match of at least one unit. -/
def search (p : Pattern) : (before after : Text) → (index : Nat) → Option Span
  | _, [], _ => none
  | before, u :: rest, index =>
    match p before (u :: rest) with
    | some (n + 1) => some ⟨index, (u :: rest).take (n + 1)⟩
    | _ => search p (u :: before) rest (index + 1)

/-- The first match of at least one unit at or after `start`; a negative offset counts as zero. -/
def nextMatch (p : Pattern) (text : Text) (start : Int) : Option Span :=
  p.search (text.take start.toNat).reverse (text.drop start.toNat) start.toNat

theorem search_in {p : Pattern} {text before after : Text} {index : Nat} {s : Span}
    (hd : text.drop index = after) (h : p.search before after index = some s) :
    s.In text index := by
  induction after generalizing before index with
  | nil => simp [search] at h
  | cons u rest ih =>
    have step (h : p.search (u :: before) rest (index + 1) = some s) : s.In text index := by
      have ht := @ih (u :: before) (index + 1) (by rw [← List.drop_drop, hd]; rfl) h
      exact ht.of_le (Nat.le_succ index)
    rw [search] at h
    split at h
    · next n _ =>
      obtain rfl := Option.some.inj h
      refine ⟨Nat.le_refl _, by simp, ?_⟩
      simp only [hd, List.length_take]
      rw [List.take_eq_take_iff]
      omega
    · exact step h

def classifier (p : Pattern) : Classifier where
  nextMatch text start := p.nextMatch text start
  nextMatch_in _ _ _ h := search_in rfl h

/-! ## Simple patterns -/

def unit (f : CodeUnit → Bool) : Pattern
  | _, u :: _ => if f u then some 1 else none
  | _, [] => none

def empty : Pattern := fun _ _ => some 0

def run (f : CodeUnit → Bool) : Pattern := fun _ after => some (after.takeWhile f).length

def advance (before after : Text) (n : Nat) : Text := (after.take n).reverse ++ before

/-- The first pattern and then the second.  The first keeps its preferred match. -/
def followedBy (p q : Pattern) : Pattern := fun before after => do
  let n ← p before after
  let m ← q (advance before after n) (after.drop n)
  return n + m

def orElse (p q : Pattern) : Pattern := fun before after => p before after <|> q before after

def atStart : Pattern := fun before _ => if before.isEmpty then some 0 else none

def atLineStart : Pattern := fun before _ => if before.head?.all CodeUnit.endsLine then some 0 else none

def atLineEnd : Pattern := fun _ after => if after.head?.all CodeUnit.endsLine then some 0 else none

end Pattern

end Typeahead
