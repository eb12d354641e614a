import Typeahead.Json.Reader
import Typeahead.Json.Writer
import Typeahead.Proofs.CodePoints
import Typeahead.Proofs.WholeNumbers

/-!
# JSON read back

A value is read back from its JSON, on one line or on many, if its numbers are whole and its records name each
field once (`Json.read?_write`).  Reading follows writing part by part; the text that follows a part is left as
it is, and all the reader asks of it is that it goes on with no number.
-/

namespace Typeahead

open Text (ofString)

namespace Json

/-! ## Strings -/

/-- Units that are written as an escape. -/
theorem readString_escaped (done rest : Text) : ∀ n, n < 0x20 →
    readString done (escapeUnit n.toUInt16 ++ rest) = readString (n.toUInt16 :: done) rest
  | 0, _ | 1, _ | 2, _ | 3, _ | 4, _ | 5, _ | 6, _ | 7, _ | 8, _ | 9, _ | 10, _ | 11, _ | 12, _ | 13, _ | 14, _
  | 15, _ | 16, _ | 17, _ | 18, _ | 19, _ | 20, _ | 21, _ | 22, _ | 23, _ | 24, _ | 25, _ | 26, _ | 27, _ | 28, _
  | 29, _ | 30, _ | 31, _ => rfl
  | _ + 32, h => absurd h (by omega)

theorem readString_plain {u : CodeUnit} (hc : 0x20 ≤ u.toNat) (hq : u ≠ 0x22) (hb : u ≠ 0x5C) (done rest : Text) :
    readString done (u :: rest) = readString (u :: done) rest := by
  have hctrl : ¬ u < 0x20 := by
    rw [UInt16.lt_iff_toNat_lt]
    exact Nat.not_lt.mpr hc
  rw [readString]
  · rw [if_neg hctrl]
  · exact fun h => hq h
  · exact fun _ _ _ _ _ h => absurd h hb
  · exact fun _ _ h => absurd h hb

theorem escapeUnit_of_plain {u : CodeUnit} (hc : 0x20 ≤ u.toNat) (hq : u ≠ 0x22) (hb : u ≠ 0x5C) :
    escapeUnit u = [u] := by
  have hne (v : CodeUnit) (hv : v.toNat < 0x20) : (u == v) = false := by
    rw [beq_eq_false_iff_ne]
    rintro rfl
    omega
  have hctrl (v : CodeUnit) (hv : v.toNat ≤ 0x20) : ¬ u < v := by
    rw [UInt16.lt_iff_toNat_lt]
    omega
  simp only [escapeUnit, beq_eq_false_iff_ne.mpr hq, beq_eq_false_iff_ne.mpr hb, hne 0x08 (by decide),
    hne 0x0C (by decide), hne 0x0A (by decide), hne 0x0D (by decide), hne 0x09 (by decide), hctrl 0x10 (by decide),
    hctrl 0x20 (by decide), Bool.false_eq_true, if_false]

theorem readString_escapeUnit (u : CodeUnit) (done rest : Text) :
    readString done (escapeUnit u ++ rest) = readString (u :: done) rest := by
  by_cases hc : u.toNat < 0x20
  · have hu : u.toNat.toUInt16 = u := UInt16.toNat_inj.mp (by simp)
    have h := readString_escaped done rest u.toNat hc
    rwa [hu] at h
  by_cases hq : u = 0x22
  · subst hq
    rfl
  by_cases hb : u = 0x5C
  · subst hb
    rfl
  · rw [escapeUnit_of_plain (Nat.not_lt.mp hc) hq hb]
    exact readString_plain (Nat.not_lt.mp hc) hq hb done rest

theorem readString_escaped_text (t done rest : Text) :
    readString done (t.flatMap escapeUnit ++ 0x22 :: rest) = some (done.reverse ++ t, rest) := by
  induction t generalizing done with
  | nil =>
    rw [List.append_nil]
    rfl
  | cons u t ih =>
    rw [List.flatMap_cons, List.append_assoc, readString_escapeUnit, ih, List.reverse_cons, List.append_assoc]
    rfl

theorem quote_append (t rest : Text) : quote t ++ rest = 0x22 :: (t.flatMap escapeUnit ++ 0x22 :: rest) := by
  simp [quote]

/-- A string is read back up to its closing quote. -/
theorem readString_quoted (t rest : Text) :
    readString [] (t.flatMap escapeUnit ++ 0x22 :: rest) = some (t, rest) := readString_escaped_text t [] rest

/-! ## Spaces -/

theorem skip_append {g : Text} (hg : g.all isSpace = true) (t : Text) : skip (g ++ t) = skip t :=
  List.dropWhile_append_of_pos (List.all_eq_true.mp hg)

theorem skip_cons {u : CodeUnit} (hu : isSpace u = false) (t : Text) : skip (u :: t) = u :: t := by
  simp [skip, hu]

theorem skip_spaces {g : Text} (hg : g.all isSpace = true) {u : CodeUnit} (hu : isSpace u = false) (t : Text) :
    skip (g ++ u :: t) = u :: t := by
  rw [skip_append hg, skip_cons hu]

theorem newline_all_isSpace (level : Nat) : (newline level).all isSpace = true := by
  simp [newline, isSpace]

def gap (wide : Bool) (level : Nat) : Text := if wide then newline level else []

theorem gap_all_isSpace (wide : Bool) (level : Nat) : (gap wide level).all isSpace = true := by
  cases wide with
  | false => rfl
  | true => exact newline_all_isSpace level

theorem block_eq (wide : Bool) (level : Nat) {parts : List Text} (h : parts ≠ []) : block wide level parts =
    gap wide (level + 1) ++ (Text.join (0x2C :: gap wide (level + 1)) parts ++ gap wide level) := by
  have hempty : parts.isEmpty = false := List.isEmpty_eq_false_iff.mpr h
  cases wide with
  | false => simp [block, gap, hempty]
  | true => simp [block, gap, hempty]

/-! ## What may follow -/

def EndsNumber (rest : Text) : Prop :=
  ∀ u ∈ rest.head?, u.isDigit = false ∧ u ≠ 0x2E ∧ u ≠ 0x65 ∧ u ≠ 0x45

theorem endsNumber_nil : EndsNumber [] := by
  intro u hu
  cases hu

theorem endsNumber_cons {u : CodeUnit} (h : u.isDigit = false ∧ u ≠ 0x2E ∧ u ≠ 0x65 ∧ u ≠ 0x45) (t : Text) :
    EndsNumber (u :: t) := by
  intro v hv
  cases hv
  exact h

theorem endsNumber_of_isSpace {u : CodeUnit} (h : isSpace u = true) :
    u.isDigit = false ∧ u ≠ 0x2E ∧ u ≠ 0x65 ∧ u ≠ 0x45 := by
  simp only [isSpace, Bool.or_eq_true, beq_iff_eq] at h
  rcases h with ((rfl | rfl) | rfl) | rfl <;> decide

theorem endsNumber_append {g t : Text} (hg : g.all isSpace = true) (ht : EndsNumber t) : EndsNumber (g ++ t) := by
  cases g with
  | nil => exact ht
  | cons u g =>
    rw [List.all_cons, Bool.and_eq_true] at hg
    exact endsNumber_cons (endsNumber_of_isSpace hg.1) _

/-! ## Numbers -/

theorem readNumber_digits {n : Nat} (h : n ≤ Nat.pow 2 53) {rest : Text} (hrest : EndsNumber rest) :
    readNumber (Text.digits 10 n ++ rest) = some (Binary64.ofNat n, rest) := by
  have hhead : ∀ t, Text.digits 10 n ++ rest ≠ 0x2D :: t := by
    intro t ht
    cases hd : Text.digits 10 n with
    | nil => exact Text.digits_ne_nil n hd
    | cons u ds =>
      rw [hd] at ht
      have hu : u.isDigit = true := Text.isDigit_of_mem_digits (n := n) (by simp [hd])
      rw [(List.cons.inj ht).1] at hu
      exact absurd hu (by decide)
  have hempty : (Text.digits 10 n).isEmpty = false := List.isEmpty_eq_false_iff.mpr (Text.digits_ne_nil n)
  have hzero : ((Text.digits 10 n).head? == some 0x30 && (Text.digits 10 n).length != 1) = false := by
    by_cases hz : (Text.digits 10 n).head? = some 0x30
    · rw [Text.eq_zero_of_head_digits hz]
      rfl
    · simp [hz]
  unfold readNumber
  split
  rename_i negative t heq
  split at heq
  · rename_i ht
    exact absurd ht (hhead _)
  · cases heq
    simp only [DecimalLiteral.scan_digits n hrest, hempty, hzero, DecimalLiteral.value_digits h]
    rfl

/-! ## Values -/

mutual

/-- Values that JSON keeps: their numbers are whole, up to `2 ^ 53`, and no record names a field twice. -/
def Kept : Value → Prop
  | .null | .bool _ | .text _ => True
  | .number n => ∃ k, k ≤ Nat.pow 2 53 ∧ n = .ofNat k
  | .list items => KeptItems items
  | .record fields => KeptFields fields ∧ (fields.map (·.1)).Nodup

def KeptItems : List Value → Prop
  | [] => True
  | v :: rest => Kept v ∧ KeptItems rest

def KeptFields : List (Text × Value) → Prop
  | [] => True
  | (_, v) :: rest => Kept v ∧ KeptFields rest

end

theorem after?_of_ne {w u : CodeUnit} (h : w ≠ u) (word rest : Text) : after? (w :: word) (u :: rest) = none := by
  have hw : (w == u) = false := beq_eq_false_iff_ne.mpr h
  simp [after?, Text.startsWith, List.isPrefixOf, hw]

/-- A value begins with a unit that is no space and closes no list. -/
theorem write_head (wide : Bool) (level : Nat) {v : Value} (hv : Kept v) :
    ∃ u t, write wide level v = u :: t ∧ isSpace u = false ∧ u ≠ 0x5D := by
  cases v with
  | null => exact ⟨0x6E, ofString "ull", rfl, by decide, by decide⟩
  | bool b =>
    cases b with
    | false => exact ⟨0x66, ofString "alse", rfl, by decide, by decide⟩
    | true => exact ⟨0x74, ofString "rue", rfl, by decide, by decide⟩
  | text t => exact ⟨0x22, _, rfl, by decide, by decide⟩
  | list items => exact ⟨0x5B, _, rfl, by decide, by decide⟩
  | record fields => exact ⟨0x7B, _, rfl, by decide, by decide⟩
  | number n =>
    obtain ⟨k, hk, rfl⟩ := hv
    have hwrite : write wide level (.number (.ofNat k)) = Text.digits 10 k := by
      rw [write, number, if_pos (Binary64.ofNat_isFinite hk), Binary64.toText_ofNat hk]
    cases hd : Text.digits 10 k with
    | nil => exact absurd hd (Text.digits_ne_nil k)
    | cons u t =>
      have hu : u.isDigit = true := Text.isDigit_of_mem_digits (n := k) (by simp [hd])
      refine ⟨u, t, by rw [hwrite, hd], ?_, ?_⟩
      · cases hs : isSpace u with
        | false => rfl
        | true => rw [(endsNumber_of_isSpace hs).1] at hu; cases hu
      · rintro rfl
        cases hu

theorem skip_write (wide : Bool) (level : Nat) {v : Value} (hv : Kept v) (rest : Text) :
    skip (write wide level v ++ rest) = write wide level v ++ rest := by
  obtain ⟨u, t, hwrite, hu, -⟩ := write_head wide level hv
  rw [hwrite, List.cons_append]
  exact skip_cons hu _

theorem readValue_number {k : Nat} (hk : k ≤ Nat.pow 2 53) (fuel : Nat) {rest : Text} (hrest : EndsNumber rest) :
    readValue (fuel + 1) (Text.digits 10 k ++ rest) = some (.number (.ofNat k), rest) := by
  have hread := readNumber_digits hk hrest
  cases hd : Text.digits 10 k with
  | nil => exact absurd hd (Text.digits_ne_nil k)
  | cons u t =>
    have hu : u.isDigit = true := Text.isDigit_of_mem_digits (n := k) (by simp [hd])
    have hne (v : CodeUnit) (hv : v.isDigit = false) : v ≠ u := by
      rintro rfl
      rw [hv] at hu
      cases hu
    have hnull : after? (ofString "null") (u :: (t ++ rest)) = none := after?_of_ne (hne 0x6E (by decide)) _ _
    have htrue : after? (ofString "true") (u :: (t ++ rest)) = none := after?_of_ne (hne 0x74 (by decide)) _ _
    have hfalse : after? (ofString "false") (u :: (t ++ rest)) = none := after?_of_ne (hne 0x66 (by decide)) _ _
    rw [hd, List.cons_append] at hread
    rw [List.cons_append, readValue]
    · simp only [hnull, htrue, hfalse, hread, Option.map_some]
    · exact fun _ h => hne 0x22 (by decide) (List.cons.inj h).1.symm
    · exact fun _ h => hne 0x5B (by decide) (List.cons.inj h).1.symm
    · exact fun _ h => hne 0x7B (by decide) (List.cons.inj h).1.symm

/-! ## Blocks -/

theorem join_cons (sep p : Text) (ps : List Text) : ∃ tail, Text.join sep (p :: ps) = p ++ tail := by
  cases ps with
  | nil => exact ⟨[], (List.append_nil p).symm⟩
  | cons q ps => exact ⟨_, Text.join_cons_cons sep p q ps⟩

theorem join_items_head (wide : Bool) (level : Nat) (sep : Text) {v : Value} {items : List Value}
    (hv : KeptItems (v :: items)) (rest : Text) :
    ∃ u t, Text.join sep (writeItems wide level (v :: items)) ++ rest = u :: t ∧ isSpace u = false ∧ u ≠ 0x5D := by
  obtain ⟨tail, htail⟩ := join_cons sep (write wide level v) (writeItems wide level items)
  obtain ⟨u, t, hwrite, hu, hend⟩ := write_head wide level hv.1
  refine ⟨u, t ++ tail ++ rest, ?_, hu, hend⟩
  rw [writeItems, htail, hwrite]
  rfl

def afterColon (wide : Bool) : Text := if wide then [0x20] else []

theorem writeItems_ne_nil (wide : Bool) (level : Nat) (v : Value) (items : List Value) :
    writeItems wide level (v :: items) ≠ [] := List.cons_ne_nil _ _

theorem writeFields_cons (wide : Bool) (level : Nat) (name : Text) (v : Value) (fields : List (Text × Value)) :
    writeFields wide level ((name, v) :: fields) =
      (quote name ++ 0x3A :: (afterColon wide ++ write wide level v)) :: writeFields wide level fields := by
  cases wide with
  | false =>
    rw [writeFields, List.append_assoc]
    rfl
  | true =>
    rw [writeFields, List.append_assoc]
    rfl

theorem writeFields_ne_nil (wide : Bool) (level : Nat) (f : Text × Value) (fields : List (Text × Value)) :
    writeFields wide level (f :: fields) ≠ [] := by
  rw [writeFields_cons]
  exact List.cons_ne_nil _ _

theorem join_fields_head (wide : Bool) (level : Nat) (sep : Text) (f : Text × Value)
    (fields : List (Text × Value)) (rest : Text) :
    ∃ t, Text.join sep (writeFields wide level (f :: fields)) ++ rest = 0x22 :: t := by
  obtain ⟨name, v⟩ := f
  rw [writeFields_cons]
  obtain ⟨tail, htail⟩ := join_cons sep (quote name ++ 0x3A :: (afterColon wide ++ write wide level v))
    (writeFields wide level fields)
  exact ⟨_, by rw [htail, List.append_assoc, List.append_assoc, quote_append]⟩

theorem readValue_list (fuel : Nat) {u : CodeUnit} {t inner : Text} (h : skip inner = u :: t) (hend : u ≠ 0x5D) :
    readValue (fuel + 1) (0x5B :: inner) =
      (readItems fuel [] (u :: t)).map fun (items, rest) => (.list items, rest) := by
  rw [readValue, h]
  split
  · rename_i h
    exact absurd (List.cons.inj h).1 hend
  · rfl

theorem readValue_record (fuel : Nat) {u : CodeUnit} {t inner : Text} (h : skip inner = u :: t) (hend : u ≠ 0x7D) :
    readValue (fuel + 1) (0x7B :: inner) =
      (readFields fuel [] (u :: t)).map fun (fields, rest) => (.record fields, rest) := by
  rw [readValue, h]
  split
  · rename_i h
    exact absurd (List.cons.inj h).1 hend
  · rfl

/-- The field at the head of a text is its name, a colon and its value; then the record goes on or ends. -/
theorem readFields_field {fuel : Nat} (done : List (Text × Value)) (name : Text) (wide : Bool) {t rest : Text}
    {v : Value} (ht : skip t = t) (h : readValue fuel t = some (v, rest)) :
    (∀ more, skip rest = 0x2C :: more → readFields (fuel + 1) done (quote name ++ 0x3A :: (afterColon wide ++ t)) =
      readFields fuel (Value.setField name v done) (skip more)) ∧
    (∀ after, skip rest = 0x7D :: after → readFields (fuel + 1) done (quote name ++ 0x3A :: (afterColon wide ++ t)) =
      some (Value.setField name v done, after)) := by
  have hcolon (s : Text) : skip (0x3A :: s) = 0x3A :: s := skip_cons (by decide) s
  have hafter : skip (afterColon wide ++ t) = t := by
    rw [skip_append (by cases wide <;> rfl), ht]
  constructor
  · intro more hmore
    rw [quote_append, readFields, readString_quoted]
    simp only [hcolon, hafter, h, hmore]
  · intro after hend
    rw [quote_append, readFields, readString_quoted]
    simp only [hcolon, hafter, h, hend]

theorem setField_of_not_mem {name : Text} {v : Value} : ∀ {fields : List (Text × Value)},
    name ∉ fields.map (·.1) → Value.setField name v fields = fields ++ [(name, v)]
  | [], _ => rfl
  | (key, w) :: rest, h => by
    rw [List.map_cons, List.mem_cons, not_or] at h
    have hkey : (key == name) = false := beq_eq_false_iff_ne.mpr (Ne.symm h.1)
    rw [Value.setField, hkey, if_neg Bool.false_ne_true, setField_of_not_mem h.2]
    rfl

theorem not_mem_of_nodup {name : Text} {v : Value} {done fields : List (Text × Value)}
    (h : ((done ++ (name, v) :: fields).map (·.1)).Nodup) : name ∉ done.map (·.1) := by
  intro hin
  rw [List.map_append, List.map_cons, List.nodup_append] at h
  exact h.2.2 name hin name List.mem_cons_self rfl

/-! ## Reading back -/

mutual

/-- A value is read back from its JSON, and what follows is left.  `fuel` has to exceed what is read. -/
theorem readValue_write (wide : Bool) : ∀ (v : Value) (level fuel : Nat) (rest : Text), Kept v →
    (write wide level v).length < fuel → EndsNumber rest →
      readValue fuel (write wide level v ++ rest) = some (v, rest)
  | _, _, 0, _, _, hf, _ => absurd hf (Nat.not_lt_zero _)
  | .null, _, fuel + 1, rest, _, _, _ => rfl
  | .bool false, _, fuel + 1, rest, _, _, _ => rfl
  | .bool true, _, fuel + 1, rest, _, _, _ => rfl
  | .number n, level, fuel + 1, rest, hv, _, hrest => by
    obtain ⟨k, hk, rfl⟩ := hv
    rw [write, number, if_pos (Binary64.ofNat_isFinite hk), Binary64.toText_ofNat hk]
    exact readValue_number hk fuel hrest
  | .text t, level, fuel + 1, rest, _, _, _ => by
    rw [write, quote_append, readValue, readString_quoted]
    rfl
  | .list [], level, fuel + 1, rest, _, _, _ => rfl
  | .list (v :: items), level, fuel + 1, rest, hv, hf, _ => by
    have hblock := block_eq wide level (writeItems_ne_nil wide (level + 1) v items)
    have hlen : (Text.join (0x2C :: gap wide (level + 1)) (writeItems wide (level + 1) (v :: items))).length + 1 <
        fuel := by
      rw [write, hblock] at hf
      simp only [List.length_append, List.length_cons, List.length_nil] at hf
      omega
    have hread := readItems_write wide v items (level + 1) fuel [] rest hv hlen (gap_all_isSpace wide level)
    obtain ⟨u, t, hhead, hu, hend⟩ := join_items_head wide (level + 1) (0x2C :: gap wide (level + 1)) hv
      (gap wide level ++ 0x5D :: rest)
    rw [hhead] at hread
    have htext : write wide level (.list (v :: items)) ++ rest =
        0x5B :: (gap wide (level + 1) ++ u :: t) := by
      rw [write, hblock, ← hhead]
      simp only [List.append_assoc, List.cons_append, List.nil_append]
    have hskip : skip (gap wide (level + 1) ++ u :: t) = u :: t := skip_spaces (gap_all_isSpace wide _) hu t
    rw [htext, readValue_list fuel hskip hend, hread]
    rfl
  | .record [], level, fuel + 1, rest, _, _, _ => rfl
  | .record (f :: fields), level, fuel + 1, rest, hv, hf, _ => by
    have hblock := block_eq wide level (writeFields_ne_nil wide (level + 1) f fields)
    have hlen : (Text.join (0x2C :: gap wide (level + 1)) (writeFields wide (level + 1) (f :: fields))).length + 1 <
        fuel := by
      rw [write, hblock] at hf
      simp only [List.length_append, List.length_cons, List.length_nil] at hf
      omega
    have hread := readFields_write wide f fields (level + 1) fuel [] rest hv.1 hv.2 hlen
      (gap_all_isSpace wide level)
    obtain ⟨t, hhead⟩ := join_fields_head wide (level + 1) (0x2C :: gap wide (level + 1)) f fields
      (gap wide level ++ 0x7D :: rest)
    rw [hhead] at hread
    have htext : write wide level (.record (f :: fields)) ++ rest =
        0x7B :: (gap wide (level + 1) ++ 0x22 :: t) := by
      rw [write, hblock, ← hhead]
      simp only [List.append_assoc, List.cons_append, List.nil_append]
    have hskip : skip (gap wide (level + 1) ++ 0x22 :: t) = 0x22 :: t :=
      skip_spaces (gap_all_isSpace wide _) (by decide) t
    rw [htext, readValue_record fuel hskip (by decide), hread]
    rfl

theorem readItems_write (wide : Bool) : ∀ (v : Value) (items : List Value) (level fuel : Nat) (done : List Value)
    (rest : Text), KeptItems (v :: items) →
    (Text.join (0x2C :: gap wide level) (writeItems wide level (v :: items))).length + 1 < fuel →
    ∀ {g : Text}, g.all isSpace = true →
      readItems fuel done (Text.join (0x2C :: gap wide level) (writeItems wide level (v :: items)) ++
        (g ++ 0x5D :: rest)) = some (done.reverse ++ v :: items, rest)
  | _, _, _, 0, _, _, _, hf, _, _ => absurd hf (Nat.not_lt_zero _)
  | v, [], level, fuel + 1, done, rest, hv, hf, g, hg => by
    have hlen : (write wide level v).length < fuel := by
      simp only [writeItems, Text.join] at hf
      omega
    have hread := readValue_write wide v level fuel (g ++ 0x5D :: rest) hv.1 hlen
      (endsNumber_append hg (endsNumber_cons (by decide) _))
    have hskip : skip (g ++ 0x5D :: rest) = 0x5D :: rest := skip_spaces hg (by decide) rest
    simp only [writeItems, Text.join, readItems, hread, hskip]
    rw [List.reverse_cons]
  | v, w :: items, level, fuel + 1, done, rest, hv, hf, g, hg => by
    have hjoin : Text.join (0x2C :: gap wide level) (writeItems wide level (v :: w :: items)) =
        write wide level v ++ 0x2C :: (gap wide level ++
          Text.join (0x2C :: gap wide level) (writeItems wide level (w :: items))) := by
      rw [writeItems, writeItems, Text.join_cons_cons]
      rfl
    rw [hjoin] at hf ⊢
    simp only [List.length_append, List.length_cons] at hf
    have hread := readValue_write wide v level fuel (0x2C :: (gap wide level ++
      (Text.join (0x2C :: gap wide level) (writeItems wide level (w :: items)) ++ (g ++ 0x5D :: rest)))) hv.1 (by omega)
      (endsNumber_cons (by decide) _)
    have hmore := readItems_write wide w items level fuel (v :: done) rest hv.2 (by omega) hg
    obtain ⟨u, t, hhead, hu, -⟩ := join_items_head wide level (0x2C :: gap wide level) hv.2 (g ++ 0x5D :: rest)
    have hskip : skip (gap wide level ++
        (Text.join (0x2C :: gap wide level) (writeItems wide level (w :: items)) ++ (g ++ 0x5D :: rest))) =
        Text.join (0x2C :: gap wide level) (writeItems wide level (w :: items)) ++ (g ++ 0x5D :: rest) := by
      rw [hhead]
      exact skip_spaces (gap_all_isSpace wide level) hu t
    have hcomma (s : Text) : skip (0x2C :: s) = 0x2C :: s := skip_cons (by decide) s
    simp only [List.append_assoc, List.cons_append, readItems, hread, hcomma, hskip, hmore]
    rw [List.reverse_cons, List.append_assoc]
    rfl

theorem readFields_write (wide : Bool) : ∀ (f : Text × Value) (fields : List (Text × Value)) (level fuel : Nat)
    (done : List (Text × Value)) (rest : Text), KeptFields (f :: fields) →
    ((done ++ f :: fields).map (·.1)).Nodup →
    (Text.join (0x2C :: gap wide level) (writeFields wide level (f :: fields))).length + 1 < fuel →
    ∀ {g : Text}, g.all isSpace = true →
      readFields fuel done (Text.join (0x2C :: gap wide level) (writeFields wide level (f :: fields)) ++
        (g ++ 0x7D :: rest)) = some (done ++ f :: fields, rest)
  | _, _, _, 0, _, _, _, _, hf, _, _ => absurd hf (Nat.not_lt_zero _)
  | (name, v), [], level, fuel + 1, done, rest, hv, hn, hf, g, hg => by
    have hfresh : name ∉ done.map (·.1) := not_mem_of_nodup hn
    rw [writeFields_cons, writeFields, Text.join] at hf ⊢
    simp only [List.length_append, List.length_cons] at hf
    have hread := readValue_write wide v level fuel (g ++ 0x7D :: rest) hv.1 (by omega)
      (endsNumber_append hg (endsNumber_cons (by decide) _))
    have hskip : skip (g ++ 0x7D :: rest) = 0x7D :: rest := skip_spaces hg (by decide) rest
    have hfield := (readFields_field done name wide (skip_write wide level hv.1 _) hread).2 rest hskip
    simp only [List.append_assoc, List.cons_append]
    rw [hfield, setField_of_not_mem hfresh]
  | (name, v), f :: fields, level, fuel + 1, done, rest, hv, hn, hf, g, hg => by
    have hfresh : name ∉ done.map (·.1) := not_mem_of_nodup hn
    have hjoin : Text.join (0x2C :: gap wide level) (writeFields wide level ((name, v) :: f :: fields)) =
        quote name ++ 0x3A :: (afterColon wide ++ (write wide level v ++ 0x2C :: (gap wide level ++
          Text.join (0x2C :: gap wide level) (writeFields wide level (f :: fields))))) := by
      rw [writeFields_cons]
      cases hparts : writeFields wide level (f :: fields) with
      | nil => exact absurd hparts (writeFields_ne_nil wide level f fields)
      | cons p ps =>
        rw [Text.join_cons_cons]
        simp only [List.append_assoc, List.cons_append]
    rw [hjoin] at hf ⊢
    simp only [List.length_append, List.length_cons] at hf
    have hread := readValue_write wide v level fuel (0x2C :: (gap wide level ++
      (Text.join (0x2C :: gap wide level) (writeFields wide level (f :: fields)) ++ (g ++ 0x7D :: rest)))) hv.1 (by omega)
      (endsNumber_cons (by decide) _)
    have hdone : done ++ (name, v) :: f :: fields = done ++ [(name, v)] ++ f :: fields := by simp
    rw [hdone] at hn
    have hmore := readFields_write wide f fields level fuel (done ++ [(name, v)]) rest hv.2 hn (by omega) hg
    obtain ⟨t, hhead⟩ := join_fields_head wide level (0x2C :: gap wide level) f fields (g ++ 0x7D :: rest)
    have hskip : skip (gap wide level ++
        (Text.join (0x2C :: gap wide level) (writeFields wide level (f :: fields)) ++ (g ++ 0x7D :: rest))) =
        Text.join (0x2C :: gap wide level) (writeFields wide level (f :: fields)) ++ (g ++ 0x7D :: rest) := by
      rw [hhead]
      exact skip_spaces (gap_all_isSpace wide level) (by decide) t
    have hfield := (readFields_field done name wide (skip_write wide level hv.1 _) hread).1 _ (skip_cons (by decide) _)
    simp only [List.append_assoc, List.cons_append]
    rw [hfield, hskip, setField_of_not_mem hfresh, hmore, hdone]

end

/-- **What is written as JSON is read back**, on one line or on many. -/
theorem read?_write (wide : Bool) {v : Value} (hv : Kept v) : read? (write wide 0 v) = some v := by
  have hskip := skip_write wide 0 hv []
  have hread := readValue_write wide v 0 ((write wide 0 v).length + 1) [] hv (Nat.lt_succ_self _) endsNumber_nil
  rw [List.append_nil] at hskip hread
  rw [read?, hskip, hread]
  rfl

end Json

end Typeahead
