import Mathlib.Data.Nat.Find
import Typeahead.Control.Scanner
import Typeahead.Proofs.GrammarSegments
import Typeahead.Proofs.Reconciliation

/-!
# Where spans are found

A search finds the first place at which the match is not empty (`Pattern.nextMatch_eq_some_iff`), and a scanner
answers as its pattern does, whatever it searched before (`Scanner.nextMatch_fst`).  So the spans of a text
stand apart, in order, and with the text between them they spell it.  An anchored pattern finds spans only where
its anchor lets it.
-/

namespace Typeahead

namespace Pattern

def Void (p : Pattern) (text : Text) (i : Nat) : Prop := ∀ value, p.matchAt text i = some value → value = []

/-- The match at the first place from `start` on where it is not empty; a negative offset counts as zero. -/
structure IsNext (p : Pattern) (text : Text) (start : Int) (s : Span) : Prop where
  start_le : max 0 start ≤ s.index
  matched : p.matchAt text s.index = some s.value
  value_ne : s.value ≠ []
  value_eq : (text.drop s.index).take s.length = s.value
  void : ∀ i : Nat, max 0 start ≤ i → i < s.index → p.Void text i

variable {p : Pattern} {text : Text}

theorem void_of_length_le {i : Nat} (h : text.length ≤ i) : p.Void text i := by
  intro value hv
  have hpre := prefix_of_matchAt hv
  rwa [List.drop_of_length_le h, List.prefix_nil] at hpre

theorem void_of_none {i : Nat} (h : p.matchAt text i = none) : p.Void text i := by
  intro value hv
  rw [h] at hv
  cases hv

/-! ## Place by place -/

theorem nextMatch_of_length_le {i : Nat} (h : text.length ≤ i) : p.nextMatch text i = none := by
  simp [nextMatch, List.drop_of_length_le h, search]

theorem nextMatch_of_match {i : Nat} {value : Text} (h : p.matchAt text i = some value) (hne : value ≠ []) :
    p.nextMatch text i = some ⟨i, value⟩ := by
  obtain ⟨n, hn, rfl⟩ := Option.map_eq_some_iff.mp h
  unfold nextMatch
  rw [Int.toNat_natCast]
  cases hd : text.drop i with
  | nil => simp [hd] at hne
  | cons u rest =>
    cases n with
    | zero => simp at hne
    | succ n =>
      rw [hd] at hn
      simp [search, hn]

theorem nextMatch_of_void {i : Nat} (h : p.Void text i) : p.nextMatch text i = p.nextMatch text (i + 1 : Nat) := by
  unfold nextMatch
  rw [Int.toNat_natCast, Int.toNat_natCast]
  cases hd : text.drop i with
  | nil =>
    have hlen : text.length ≤ i := List.drop_eq_nil_iff.mp hd
    rw [List.drop_of_length_le (by omega)]
    rfl
  | cons u rest =>
    have hrest : text.drop (i + 1) = rest := by rw [← List.drop_drop, hd]; rfl
    have htake : (text.take (i + 1)).reverse = u :: (text.take i).reverse := by
      have hu : text[i]? = some u := by rw [← List.head?_drop, hd]; rfl
      rw [List.take_add_one, hu]
      simp
    rw [hrest, htake, search]
    split
    · rename_i n hn
      have hmatch : p.matchAt text i = some ((u :: rest).take (n + 1)) := by
        simp [matchAt, hd, hn]
      exact absurd (h _ hmatch) (by simp)
    · rfl

theorem nextMatch_of_voids {i j : Nat} (hij : i ≤ j) (h : ∀ n, i ≤ n → n < j → p.Void text n) :
    p.nextMatch text i = p.nextMatch text j := by
  induction j with
  | zero => rw [Nat.le_zero.mp hij]
  | succ j ih =>
    by_cases heq : i = j + 1
    · rw [heq]
    · have hle : i ≤ j := by omega
      rw [ih hle fun n hn hnj => h n hn (by omega)]
      exact nextMatch_of_void (h j hle (Nat.lt_succ_self j))

theorem nextMatch_toNat (start : Int) : p.nextMatch text start = p.nextMatch text (start.toNat : Int) := by
  simp only [nextMatch, Int.toNat_natCast]

/-! ## The first place -/

theorem nextMatch_of_isNext {start : Int} {s : Span} (h : p.IsNext text start s) : p.nextMatch text start = some s := by
  have hle := h.start_le
  have hvoid : ∀ n, start.toNat ≤ n → n < s.index → p.Void text n := by
    intro n hn hns
    exact h.void n (by omega) hns
  rw [nextMatch_toNat, nextMatch_of_voids (by omega) hvoid]
  exact nextMatch_of_match h.matched h.value_ne

theorem nextMatch_of_all_void {start : Int} (h : ∀ i : Nat, max 0 start ≤ i → p.Void text i) :
    p.nextMatch text start = none := by
  rw [nextMatch_toNat, nextMatch_of_voids (Nat.le_max_left start.toNat text.length) fun n hn _ => h n (by omega)]
  exact nextMatch_of_length_le (Nat.le_max_right _ _)

/-- Either no place is left with a match that is not empty, or there is a first one. -/
theorem isNext_cases (p : Pattern) (text : Text) (start : Int) :
    (∀ i : Nat, max 0 start ≤ i → p.Void text i) ∨ ∃ s, p.IsNext text start s := by
  by_cases hall : ∀ i : Nat, max 0 start ≤ i → p.Void text i
  · exact Or.inl hall
  · have hex : ∃ i : Nat, max 0 start ≤ i ∧ ¬p.Void text i := by
      simpa using hall
    classical
    obtain ⟨hle, hnot⟩ := Nat.find_spec hex
    obtain ⟨value, hvalue, hne⟩ : ∃ value, p.matchAt text (Nat.find hex) = some value ∧ value ≠ [] := by
      simpa [Void] using hnot
    refine Or.inr ⟨⟨Nat.find hex, value⟩, hle, hvalue, hne, ?_, ?_⟩
    · exact (List.prefix_iff_eq_take.mp (prefix_of_matchAt hvalue)).symm
    · intro i hi hlt
      exact Classical.byContradiction fun hv => Nat.find_min hex hlt ⟨hi, hv⟩

theorem nextMatch_eq_some_iff {start : Int} {s : Span} : p.nextMatch text start = some s ↔ p.IsNext text start s := by
  constructor
  · intro h
    rcases p.isNext_cases text start with hall | ⟨s', hs'⟩
    · rw [nextMatch_of_all_void hall] at h
      cases h
    · rw [nextMatch_of_isNext hs'] at h
      exact Option.some.inj h ▸ hs'
  · exact nextMatch_of_isNext

theorem nextMatch_eq_none_iff {start : Int} :
    p.nextMatch text start = none ↔ ∀ i : Nat, max 0 start ≤ i → p.Void text i := by
  constructor
  · intro h
    rcases p.isNext_cases text start with hall | ⟨s', hs'⟩
    · exact hall
    · rw [nextMatch_of_isNext hs'] at h
      cases h
  · exact nextMatch_of_all_void

theorem void_before_firstMatch {i : Nat} {s : Span} (h : p.firstMatch false text i = some s) :
    ∀ n, i ≤ n → n < s.index → p.Void text n := by
  fun_induction p.firstMatch false text i with
  | case1 i _ value hv =>
    obtain rfl := Option.some.inj h
    intro n hn hns
    exact absurd hns (Nat.not_lt.mpr hn)
  | case2 _ _ _ h' => cases h'
  | case3 i _ hnone _ ih =>
    intro n hn hns
    by_cases heq : n = i
    · exact heq ▸ void_of_none hnone
    · exact ih h n (by omega) hns
  | case4 => cases h

theorem void_of_firstMatch_none {i : Nat} (h : p.firstMatch false text i = none) :
    ∀ n, i ≤ n → p.Void text n := by
  fun_induction p.firstMatch false text i with
  | case1 => cases h
  | case2 _ _ _ h' => cases h'
  | case3 i _ hnone _ ih =>
    intro n hn
    by_cases heq : n = i
    · exact heq ▸ void_of_none hnone
    · exact ih h n (by omega)
  | case4 i hlen =>
    intro n hn
    exact void_of_length_le (by omega)

end Pattern

/-! ## Scanners -/

namespace Scanner

theorem find_fst (k : Scanner) (text : Text) (start : Nat) :
    (k.find text start).1 = k.pattern.nextMatch text start := by
  fun_induction k.find text start with
  -- one case for each way a turn of the loop can end; only the second goes on
  | case1 k start _ hnone =>
    rw [searchAt_fst] at hnone
    exact (Pattern.nextMatch_eq_none_iff.mpr fun i hi =>
      Pattern.void_of_firstMatch_none hnone i (by omega)).symm
  | case2 k start _ s hs hempty ih =>
    rw [searchAt_fst] at hs
    obtain ⟨hle, hmatch⟩ := Pattern.firstMatch_some hs
    have hvoid : ∀ n, start ≤ n → n < s.index + 1 → k.pattern.Void text n := by
      intro n hn hlt
      by_cases heq : n = s.index
      · -- the match that was found is empty
        intro value hv
        rw [heq, hmatch, List.isEmpty_iff.mp hempty] at hv
        exact (Option.some.inj hv).symm
      · exact Pattern.void_before_firstMatch hs n hn (by omega)
    rw [ih, searchAt_pattern, Pattern.nextMatch_of_voids (by omega) hvoid]
  | case3 k start _ s hs hne =>
    rw [searchAt_fst] at hs
    obtain ⟨hle, hmatch⟩ := Pattern.firstMatch_some hs
    rw [Pattern.nextMatch_of_voids hle (Pattern.void_before_firstMatch hs)]
    exact (Pattern.nextMatch_of_match hmatch (by simpa using hne)).symm
  | case4 k start hlen => exact (Pattern.nextMatch_of_length_le (by omega)).symm

/-- A scanner answers as its pattern does, whatever it kept from earlier searches. -/
theorem nextMatch_fst (k : Scanner) (text : Text) (start : Int) :
    (k.nextMatch text start).1 = k.pattern.nextMatch text start := by
  rw [nextMatch, find_fst, ← Pattern.nextMatch_toNat]

/-- Runs may be empty, the expression is sticky, and it was left off behind the span. -/
example : ((ofExpression ⟨.run (· == 120), true, true, 4⟩).nextMatch (Text.ofString "abxxc") (-1)).1 =
    some ⟨2, Text.ofString "xx"⟩ := by
  rw [nextMatch_fst]
  decide

@[simp] theorem nextMatch_pattern (k : Scanner) (text : Text) (start : Int) :
    (k.nextMatch text start).2.pattern = k.pattern := find_pattern _ _ _

theorem answers_fst : ∀ (calls : List (Text × Int)) (k : Scanner),
    (k.answers calls).1 = calls.map fun c => k.pattern.nextMatch c.1 c.2
  | [], _ => rfl
  | (text, start) :: rest, k => by
    simp only [answers, List.map_cons, nextMatch_fst, answers_fst rest, nextMatch_pattern]

theorem answers_pattern : ∀ (calls : List (Text × Int)) (k : Scanner), (k.answers calls).2.pattern = k.pattern
  | [], _ => rfl
  | (text, start) :: rest, k => by
    simp only [answers, answers_pattern rest, nextMatch_pattern]

theorem spansFrom_fst (k : Scanner) (text : Text) (cursor : Nat) :
    (k.spansFrom text cursor).1 = k.pattern.classifier.spansFrom text cursor := by
  fun_induction k.spansFrom text cursor with
  | case1 k cursor hnone =>
    rw [nextMatch_fst] at hnone
    exact (Classifier.spansFrom_of_none hnone).symm
  | case2 k cursor s hs rest last heq ih =>
    rw [nextMatch_fst] at hs
    rw [Classifier.spansFrom_of_some hs, ← nextMatch_pattern k text cursor, ← ih, heq]

end Scanner

/-! ## The spans of a text -/

theorem Span.Chain.mem_in {text : Text} : ∀ {start : Nat} {spans : List Span}, Span.Chain text start spans →
    ∀ s ∈ spans, s.In text start
  | start, first :: rest, ⟨hfirst, hrest⟩, s, hs => by
    rcases List.mem_cons.mp hs with rfl | hs
    · exact hfirst
    · exact (Span.Chain.mem_in hrest s hs).of_le (Nat.le_of_lt hfirst.lt_stop)

theorem Span.Chain.pairwise {text : Text} : ∀ {start : Nat} {spans : List Span}, Span.Chain text start spans →
    spans.Pairwise fun s s' => s.index < s'.index ∧ s.stop ≤ s'.index
  | _, [], _ => List.Pairwise.nil
  | start, first :: rest, ⟨hfirst, hrest⟩ => by
    refine List.pairwise_cons.mpr ⟨?_, Span.Chain.pairwise hrest⟩
    intro s hs
    have hle := hrest.le_index s hs
    exact ⟨Nat.lt_of_lt_of_le hfirst.index_lt_stop hle, hle⟩

theorem Classifier.join_cutAt {text : Text} {start : Nat} {spans : List Span} (h : Span.Chain text start spans) :
    (cutAt text start spans).join = text.drop start := by
  rw [← segmentsFrom_text h, ← Cut.segments_cutAt]
  exact (Cut.spell_segments _ _).symm

theorem Pattern.void_outside_spans (p : Pattern) (text : Text) (start : Nat) : ∀ i, start ≤ i →
    (∀ s ∈ p.classifier.spansFrom text start, ¬(s.index ≤ i ∧ i < s.stop)) → p.Void text i := by
  fun_induction p.classifier.spansFrom text start with
  | case1 start hnone =>
    intro i hi _
    exact nextMatch_eq_none_iff.mp hnone i (by omega)
  | case2 start s hs ih =>
    intro i hi hout
    have hfirst := hout s List.mem_cons_self
    by_cases hlt : i < s.index
    · exact (nextMatch_eq_some_iff.mp hs).void i (by omega) hlt
    · exact ih i (by omega) fun s' hs' => hout s' (List.mem_cons_of_mem _ hs')

/-- **A scanner finds what its pattern says, and the spans split the text.**  Whatever flags an expression has and
whatever was searched before, a search ends with the first match at or after the offset that is not empty, or with
nothing if there is none.  The spans of a text are not empty, each ends before the next begins, the text between them
and they themselves spell the text, and no match outside them was passed over. -/
theorem Scanner.search_splits_text (x : Expression) :
    (∀ calls, ((ofExpression x).answers calls).1 = calls.map fun c => x.pattern.nextMatch c.1 c.2) ∧
    (∀ text start s, x.pattern.nextMatch text start = some s ↔ x.pattern.IsNext text start s) ∧
    (∀ text start, x.pattern.nextMatch text start = none ↔ ∀ i : Nat, max 0 start ≤ i → x.pattern.Void text i) ∧
    ∀ calls text,
      let spans := (((ofExpression x).answers calls).2.spans text).1
      spans = x.pattern.classifier.spans text ∧
      (∀ s ∈ spans, s.value ≠ [] ∧ (text.drop s.index).take s.length = s.value) ∧
      (spans.Pairwise fun s s' => s.index < s'.index ∧ s.stop ≤ s'.index) ∧
      (Classifier.cutAt text 0 spans).join = text ∧
      ∀ i, (∀ s ∈ spans, ¬(s.index ≤ i ∧ i < s.stop)) → x.pattern.Void text i := by
  refine ⟨fun calls => answers_fst calls _, fun _ _ _ => Pattern.nextMatch_eq_some_iff,
    fun _ _ => Pattern.nextMatch_eq_none_iff, ?_⟩
  intro calls text spans
  have hspans : spans = x.pattern.classifier.spans text := by
    have h := spansFrom_fst ((ofExpression x).answers calls).2 text 0
    rwa [answers_pattern] at h
  have hchain : Span.Chain text 0 spans := by
    rw [hspans]
    exact x.pattern.classifier.spansFrom_chain text 0
  refine ⟨hspans, ?_, hchain.pairwise, Classifier.join_cutAt hchain, ?_⟩
  · intro s hs
    have hin := hchain.mem_in s hs
    exact ⟨hin.value_ne, hin.value_eq⟩
  · intro i hout
    rw [hspans] at hout
    exact x.pattern.void_outside_spans text 0 i (Nat.zero_le i) hout

/-! ## Anchored patterns -/

namespace Pattern

variable {p q : Pattern} {text : Text} {s : Span}

theorem matched_of_mem_spansFrom {start : Nat} (h : s ∈ p.classifier.spansFrom text start) :
    p.matchAt text s.index = some s.value := by
  fun_induction p.classifier.spansFrom text start with
  | case1 => cases h
  | case2 start first hfirst ih =>
    rcases List.mem_cons.mp h with rfl | hrest
    · exact (nextMatch_eq_some_iff.mp hfirst).matched
    · exact ih hrest

/-- A span of two patterns in sequence: the second matches behind what the first matches. -/
theorem exists_of_mem_spans_followedBy (h : s ∈ (p.followedBy q).classifier.spans text) :
    ∃ k m, p (text.take s.index).reverse (text.drop s.index) = some k ∧
      q (advance (text.take s.index).reverse (text.drop s.index) k) (text.drop (s.index + k)) = some m ∧
      s.value = (text.drop s.index).take (k + m) := by
  obtain ⟨n, hn, hvalue⟩ := Option.map_eq_some_iff.mp (matched_of_mem_spansFrom h)
  obtain ⟨k, hk, m, hm, rfl⟩ : ∃ k, p (text.take s.index).reverse (text.drop s.index) = some k ∧
      ∃ m, q (advance (text.take s.index).reverse (text.drop s.index) k) (text.drop (s.index + k)) = some m ∧
        k + m = n := by
    simpa [followedBy, Option.bind_eq_some_iff] using hn
  exact ⟨k, m, hk, hm, hvalue.symm⟩

theorem index_lt_of_mem_spans (h : s ∈ p.classifier.spans text) : s.index < text.length := by
  have hin := (p.classifier.spansFrom_chain text 0).mem_in s h
  exact Nat.lt_of_lt_of_le hin.index_lt_stop hin.stop_le

/-- A pattern that is anchored at the start of a text has no span but there. -/
theorem index_eq_zero_of_atStart (h : s ∈ (atStart.followedBy q).classifier.spans text) : s.index = 0 := by
  obtain ⟨k, -, hk, -⟩ := exists_of_mem_spans_followedBy h
  have hlt := index_lt_of_mem_spans h
  have hlen : min s.index text.length = 0 := by
    simpa [atStart] using congrArg Option.isSome hk
  omega

theorem endsLine_before_atLineStart (h : s ∈ (atLineStart.followedBy q).classifier.spans text) :
    ∀ i u, s.index = i + 1 → text[i]? = some u → u.endsLine = true := by
  obtain ⟨k, -, hk, -⟩ := exists_of_mem_spans_followedBy h
  intro i u hi hu
  have hall : ((text.take s.index).reverse.head?.all CodeUnit.endsLine) = true := by
    simpa [atLineStart] using congrArg Option.isSome hk
  rw [hi, List.take_add_one, hu] at hall
  simpa using hall

theorem endsLine_behind_atLineEnd (h : s ∈ (p.followedBy atLineEnd).classifier.spans text) :
    ∀ u, text[s.stop]? = some u → u.endsLine = true := by
  obtain ⟨k, m, -, hm, hvalue⟩ := exists_of_mem_spans_followedBy h
  intro u hu
  obtain ⟨hall, rfl⟩ : ((text.drop (s.index + k)).head?.all CodeUnit.endsLine) = true ∧ 0 = m := by
    simpa [atLineEnd] using hm
  have hlt := (List.getElem?_eq_some_iff.mp hu).1
  -- the text goes on behind the span, so the span has all its units
  have hstop : s.stop = s.index + k := by
    have hlen := congrArg List.length hvalue
    rw [List.length_take, List.length_drop] at hlen
    simp only [Span.stop, Span.length] at hlt ⊢
    omega
  rw [List.head?_drop, ← hstop, hu] at hall
  exact hall

end Pattern

end Typeahead
