import Typeahead.Control.Pattern

/-!
# Scanners

A pattern as matching engines offer it: an expression has flags, and it keeps the place at which its next
search begins from one search to the next, and from one text to the next.  A `Scanner` is the copy of an
expression that a classifier keeps for itself: it sets that place before each search, and it goes on behind
an empty match.
-/

namespace Typeahead

namespace Pattern

/-- The preferred match at a place of a text, which may be empty. -/
def matchAt (p : Pattern) (text : Text) (i : Nat) : Option Text :=
  (p (text.take i).reverse (text.drop i)).map (text.drop i).take

/-- The match at the first place from `i` on that has one, or at `i` only. -/
def firstMatch (p : Pattern) (onlyHere : Bool) (text : Text) (i : Nat) : Option Span :=
  if i ≤ text.length then
    match p.matchAt text i with
    | some value => some ⟨i, value⟩
    | none => if onlyHere then none else p.firstMatch onlyHere text (i + 1)
  else none
termination_by text.length + 1 - i

theorem firstMatch_some {p : Pattern} {onlyHere : Bool} {text : Text} {i : Nat} {s : Span}
    (h : p.firstMatch onlyHere text i = some s) : i ≤ s.index ∧ p.matchAt text s.index = some s.value := by
  fun_induction p.firstMatch onlyHere text i with
  | case1 i _ value hv =>
    obtain rfl := Option.some.inj h
    exact ⟨Nat.le_refl _, hv⟩
  | case2 => cases h
  | case3 i _ _ _ ih =>
    obtain ⟨hle, hv⟩ := ih h
    exact ⟨by omega, hv⟩
  | case4 => cases h

theorem prefix_of_matchAt {p : Pattern} {text value : Text} {i : Nat} (h : p.matchAt text i = some value) :
    value <+: text.drop i := by
  obtain ⟨n, -, rfl⟩ := Option.map_eq_some_iff.mp h
  exact List.take_prefix _ _

end Pattern

/-- A pattern, two flags, and the place at which the next search begins if a flag asks for it.  A sticky
expression looks at that place only. -/
structure Expression where
  pattern : Pattern
  global : Bool
  sticky : Bool
  resumeAt : Nat

/-- One search; after one without a match the next begins at the head of its text. -/
def Expression.search (x : Expression) (text : Text) : Option Span × Expression :=
  if x.global || x.sticky then
    match x.pattern.firstMatch x.sticky text x.resumeAt with
    | some s => (some s, { x with resumeAt := s.stop })
    | none => (none, { x with resumeAt := 0 })
  else (x.pattern.firstMatch false text 0, x)

/-- An expression that is kept for finding spans: it is global and never sticky. -/
structure Scanner where
  pattern : Pattern
  resumeAt : Nat

namespace Scanner

/-- The flags that an expression comes with do not count. -/
def ofExpression (x : Expression) : Scanner := ⟨x.pattern, 0⟩

def searchAt (k : Scanner) (text : Text) (start : Nat) : Option Span × Scanner :=
  let (found, x) := (Expression.mk k.pattern true false start).search text
  (found, { k with resumeAt := x.resumeAt })

@[simp] theorem searchAt_fst (k : Scanner) (text : Text) (start : Nat) :
    (k.searchAt text start).1 = k.pattern.firstMatch false text start := by
  simp only [searchAt, Expression.search, Bool.true_or, if_true]
  split <;> simp [*]

@[simp] theorem searchAt_pattern (k : Scanner) (text : Text) (start : Nat) :
    (k.searchAt text start).2.pattern = k.pattern := rfl

/-- Searches again behind each empty match. -/
def find (k : Scanner) (text : Text) (start : Nat) : Option Span × Scanner :=
  if start ≤ text.length then
    match _h : (k.searchAt text start).1 with
    | none => (none, (k.searchAt text start).2)
    | some s =>
      if s.value.isEmpty then (k.searchAt text start).2.find text (s.index + 1)
      else (some s, (k.searchAt text start).2)
  else (none, k)
termination_by text.length + 1 - start
decreasing_by
  rw [searchAt_fst] at _h
  have hle := (Pattern.firstMatch_some _h).1
  omega

@[simp] theorem find_pattern (k : Scanner) (text : Text) (start : Nat) :
    (k.find text start).2.pattern = k.pattern := by
  fun_induction k.find text start with
  | case1 => simp
  | case2 _ _ _ _ _ _ ih => rw [ih, searchAt_pattern]
  | case3 => simp
  | case4 => rfl

theorem find_in {k : Scanner} {text : Text} {start : Nat} {s : Span} (h : (k.find text start).1 = some s) :
    s.In text start := by
  fun_induction k.find text start with
  | case1 => cases h
  | case2 k start _ found hfound _ ih =>
    rw [searchAt_fst] at hfound
    have hle := (Pattern.firstMatch_some hfound).1
    exact (ih h).of_le (by omega)
  | case3 k start _ found hfound hne =>
    obtain rfl := Option.some.inj h
    rw [searchAt_fst] at hfound
    obtain ⟨hle, hmatch⟩ := Pattern.firstMatch_some hfound
    exact ⟨hle, by simpa using hne, (List.prefix_iff_eq_take.mp (Pattern.prefix_of_matchAt hmatch)).symm⟩
  | case4 => cases h

/-- The first match of at least one unit at or after `start`; a negative offset counts as zero. -/
def nextMatch (k : Scanner) (text : Text) (start : Int) : Option Span × Scanner := k.find text start.toNat

def answers (k : Scanner) : List (Text × Int) → List (Option Span) × Scanner
  | [] => ([], k)
  | (text, start) :: rest =>
    let (found, k) := k.nextMatch text start
    let (more, k) := k.answers rest
    (found :: more, k)

def spansFrom (k : Scanner) (text : Text) (cursor : Nat) : List Span × Scanner :=
  match _h : (k.nextMatch text cursor).1 with
  | none => ([], (k.nextMatch text cursor).2)
  | some s =>
    let (rest, k) := (k.nextMatch text cursor).2.spansFrom text s.stop
    (s :: rest, k)
termination_by text.length - cursor
decreasing_by
  have hin := find_in _h
  have hlt := hin.lt_stop
  have hle := hin.stop_le
  omega

def spans (k : Scanner) (text : Text) : List Span × Scanner := k.spansFrom text 0

end Scanner

end Typeahead
