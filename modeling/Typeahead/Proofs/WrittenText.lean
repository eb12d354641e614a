import Typeahead.Json.Writer
import Typeahead.Proofs.CodePoints
import Typeahead.Proofs.JsonRoundTrip
import Typeahead.Proofs.WholeNumbers
import Typeahead.Yaml.Writer

/-!
# Documents are well-formed text

A value whose texts are well formed is written as well-formed text, in JSON and in YAML.  What the writers put
in is ASCII, and where they break a text they break it at a space or a line end.
-/

namespace Typeahead

open Text (ofString)

/-! ## Numbers -/

theorem Text.digitChar_lt (n : Nat) : (CodeUnit.ofChar n.digitChar).toNat < 0x80 := by
  by_cases h : n < 16
  · have hsmall : ∀ k, k < 16 → (CodeUnit.ofChar k.digitChar).toNat < 0x80 := by decide
    exact hsmall n h
  · rw [Nat.digitChar_eq_star.mpr (Nat.not_lt.mp h)]
    decide

theorem Text.digits_isAscii {base : Nat} (hb : 1 < base) (n : Nat) : (digits base n).IsAscii := by
  induction n using Nat.strongRecOn with
  | ind n ih =>
    have hone (k : Nat) : IsAscii [CodeUnit.ofChar k.digitChar] := by
      intro u hu
      rw [List.mem_singleton.mp hu]
      exact digitChar_lt k
    by_cases hn : n < base
    · rw [digits_of_lt hn]
      exact hone n
    · rw [digits_of_ge hb (Nat.not_lt.mp hn)]
      exact (ih (n / base) (Nat.div_lt_self (by omega) hb)).append (hone _)

namespace Binary64

theorem decimalText_isAscii {digits : Text} (h : digits.IsAscii) (point : Int) : (decimalText digits point).IsAscii := by
  have hzeros (n : Nat) : (zeros n).IsAscii := Text.isAscii_replicate n (by decide)
  have htake (n : Nat) : Text.IsAscii (digits.take n) := h.of_subset (List.take_subset n digits)
  have hdrop (n : Nat) : Text.IsAscii (digits.drop n) := h.of_subset (List.drop_subset n digits)
  have hdot : (ofString ".").IsAscii := by decide
  have hlead : (ofString "0.").IsAscii := by decide
  have hexp : (ofString "e").IsAscii := by decide
  have hsign (p : Prop) [Decidable p] : (ofString (if p then "+" else "-")).IsAscii := by
    split <;> decide
  have htail (b : Bool) : Text.IsAscii (if b then [] else ofString "." ++ digits.drop 1) := by
    cases b with
    | false => exact hdot.append (hdrop 1)
    | true => exact List.forall_mem_nil _
  have hpower : (Text.digits 10 (point - 1).natAbs).IsAscii := Text.digits_isAscii (by decide) _
  unfold decimalText
  dsimp only
  split
  · exact h.append (hzeros _)
  · split
    · exact ((htake _).append hdot).append (hdrop _)
    · split
      · exact (hlead.append (hzeros _)).append h
      · exact ((((htake 1).append (htail _)).append hexp).append (hsign _)).append hpower

theorem magnitudeText_isAscii (m : Nat) (e : Int) : (magnitudeText m e).IsAscii := by
  have hdigits (n : Nat) : (Text.digits 10 n).IsAscii := Text.digits_isAscii (by decide) n
  have hshortest : (magnitudeText.shortestText m e).IsAscii := decimalText_isAscii (hdigits _) _
  unfold magnitudeText
  split
  · split
    · exact hdigits _
    · exact hshortest
  · exact hshortest

theorem toText_isAscii (n : Binary64) : n.toText.IsAscii := by
  have hsign : (ofString "-").IsAscii := by decide
  unfold toText
  split
  · decide
  · decide
  · decide
  · split
    · decide
    · split
      · exact hsign.append (magnitudeText_isAscii _ _)
      · exact magnitudeText_isAscii _ _

end Binary64

/-! ## Values -/

namespace Value

mutual

def WellFormed : Value → Prop
  | .null | .bool _ | .number _ => True
  | .text t => t.WellFormed
  | .list items => ItemsWellFormed items
  | .record fields => FieldsWellFormed fields

def ItemsWellFormed : List Value → Prop
  | [] => True
  | v :: rest => WellFormed v ∧ ItemsWellFormed rest

def FieldsWellFormed : List (Text × Value) → Prop
  | [] => True
  | (name, v) :: rest => name.WellFormed ∧ WellFormed v ∧ FieldsWellFormed rest

end

end Value

/-! ## JSON -/

namespace Json

theorem escapeUnit_of_isSurrogate {u : CodeUnit} (h : u.isSurrogate = true) : escapeUnit u = [u] := by
  have hu : 0xD800 ≤ u.toNat := by
    refine Nat.not_lt.mp fun hlt => ?_
    rw [u.isSurrogate_eq_false_iff.mpr (.inl hlt)] at h
    cases h
  exact escapeUnit_of_plain (by omega) (by rintro rfl; exact absurd hu (by decide))
    (by rintro rfl; exact absurd hu (by decide))

theorem escapeUnit_wellFormed {u : CodeUnit} (h : u.isSurrogate = false) : Text.WellFormed (escapeUnit u) := by
  by_cases hc : u.toNat < 0x20
  · have hall : ∀ n, n < 0x20 → Text.IsAscii (escapeUnit (.ofNat n)) := by decide
    have hu := hall u.toNat hc
    rw [UInt16.ofNat_toNat] at hu
    exact hu.wellFormed
  · by_cases hq : u = 0x22
    · subst hq
      exact Text.IsAscii.wellFormed (by decide)
    · by_cases hb : u = 0x5C
      · subst hb
        exact Text.IsAscii.wellFormed (by decide)
      · rw [escapeUnit_of_plain (Nat.not_lt.mp hc) hq hb]
        exact .unit h .nil

theorem quote_wellFormed {t : Text} (h : t.WellFormed) : Text.WellFormed (quote t) := by
  have hmarks : Text.WellFormed [0x22] := by decide
  have hbody : Text.WellFormed (t.flatMap escapeUnit) :=
    h.flatMap (fun _ => escapeUnit_of_isSurrogate) (fun _ => escapeUnit_wellFormed)
  exact .unit (by decide) (hbody.append hmarks)

theorem block_wellFormed (wide : Bool) (level : Nat) {parts : List Text} (h : ∀ p ∈ parts, p.WellFormed) :
    Text.WellFormed (block wide level parts) := by
  have hnewline (level : Nat) : Text.WellFormed (newline level) := (Text.isAscii_newline _).wellFormed
  have hsep : Text.WellFormed (0x2C :: newline (level + 1)) := .unit (by decide) (hnewline _)
  have hcomma : Text.WellFormed [0x2C] := by decide
  unfold block
  split
  · exact .nil
  · split
    · exact ((hnewline _).append (hsep.join h)).append (hnewline _)
    · exact hcomma.join h

theorem number_isAscii (n : Binary64) : (number n).IsAscii := by
  unfold number
  split
  · exact n.toText_isAscii
  · decide

mutual

theorem write_wellFormed (wide : Bool) (level : Nat) : ∀ {v : Value}, v.WellFormed →
    Text.WellFormed (write wide level v)
  | .null, _ => show Text.WellFormed (ofString "null") by decide
  | .bool true, _ => show Text.WellFormed (ofString "true") by decide
  | .bool false, _ => show Text.WellFormed (ofString "false") by decide
  | .number n, _ => (number_isAscii n).wellFormed
  | .text _, h => quote_wellFormed h
  | .list items, h => by
    have hopen : Text.WellFormed [0x5B] := by decide
    have hclose : Text.WellFormed [0x5D] := by decide
    exact (hopen.append (block_wellFormed wide level (writeItems_wellFormed wide (level + 1) h))).append hclose
  | .record fields, h => by
    have hopen : Text.WellFormed [0x7B] := by decide
    have hclose : Text.WellFormed [0x7D] := by decide
    exact (hopen.append (block_wellFormed wide level (writeFields_wellFormed wide (level + 1) h))).append hclose

theorem writeItems_wellFormed (wide : Bool) (level : Nat) : ∀ {items : List Value}, Value.ItemsWellFormed items →
    ∀ p ∈ writeItems wide level items, p.WellFormed
  | [], _ => List.forall_mem_nil _
  | _ :: _, ⟨hv, hrest⟩ =>
    List.forall_mem_cons.mpr ⟨write_wellFormed wide level hv, writeItems_wellFormed wide level hrest⟩

theorem writeFields_wellFormed (wide : Bool) (level : Nat) : ∀ {fields : List (Text × Value)},
    Value.FieldsWellFormed fields → ∀ p ∈ writeFields wide level fields, p.WellFormed
  | [], _ => List.forall_mem_nil _
  | (_, _) :: _, ⟨hname, hv, hrest⟩ => by
    have hcolon : Text.WellFormed (ofString (if wide then ": " else ":")) := by
      cases wide <;> exact Text.IsAscii.wellFormed (by decide)
    have hfield := ((quote_wellFormed hname).append hcolon).append (write_wellFormed wide level hv)
    exact List.forall_mem_cons.mpr ⟨hfield, writeFields_wellFormed wide level hrest⟩

end

end Json

/-! ## YAML -/

namespace Yaml.Writer

/-- A line that is cut at a space. -/
theorem cut_at_space {t : Text} {start stop : Nat} (h : Text.WellFormed (t.drop start)) (hlt : start ≤ stop)
    (hs : t[stop]? = some 0x20) :
    Text.WellFormed ((t.drop start).take (stop - start)) ∧ Text.WellFormed (t.drop (stop + 1)) := by
  have hget : (t.drop start)[stop - start]? = some 0x20 := by
    rw [List.getElem?_drop, Nat.add_sub_cancel' hlt]
    exact hs
  have hcut := h.cut hget (by decide)
  rwa [List.drop_drop, ← Nat.add_assoc, Nat.add_sub_cancel' hlt] at hcut

theorem breakLine_wellFormed (width : Nat) {t : Text} : ∀ {places : List Nat} {start last : Nat} {done : List Text},
    (∀ i ∈ places, t[i]? = some 0x20) → (start < last → t[last]? = some 0x20) →
    Text.WellFormed (t.drop start) → (∀ piece ∈ done, piece.WellFormed) →
    ∀ piece ∈ breakLine width t start last done places, piece.WellFormed
  | [], start, last, done, _, hlast, hline, hdone => by
    unfold breakLine
    split
    · rename_i hcond
      simp only [Bool.and_eq_true, decide_eq_true_eq] at hcond
      have hlt := hcond.2
      obtain ⟨hfront, hback⟩ := cut_at_space hline (Nat.le_of_lt hlt) (hlast hlt)
      intro piece hp
      simp only [List.mem_reverse, List.mem_cons] at hp
      rcases hp with rfl | rfl | hp
      · exact hback
      · exact hfront
      · exact hdone piece hp
    · intro piece hp
      rcases List.mem_cons.mp (List.mem_reverse.mp hp) with rfl | hp
      · exact hline
      · exact hdone piece hp
  | next :: places, start, last, done, hplaces, hlast, hline, hdone => by
    obtain ⟨hnext, hplaces⟩ := List.forall_mem_cons.mp hplaces
    unfold breakLine
    split
    · rename_i hwide
      dsimp only
      have hstop : start ≤ (if start < last then last else next) ∧
          t[if start < last then last else next]? = some 0x20 := by
        split
        · rename_i hlt
          exact ⟨Nat.le_of_lt hlt, hlast hlt⟩
        · exact ⟨by omega, hnext⟩
      obtain ⟨hfront, hback⟩ := cut_at_space hline hstop.1 hstop.2
      exact breakLine_wellFormed width hplaces (fun _ => hnext) hback (List.forall_mem_cons.mpr ⟨hfront, hdone⟩)
    · exact breakLine_wellFormed width hplaces (fun _ => hnext) hline hdone

theorem foldLine_wellFormed (width : Nat) {t : Text} (h : t.WellFormed) : (foldLine width t).WellFormed := by
  have hplaces : ∀ i ∈ breakPlaces t, t[i]? = some 0x20 := by
    intro i hi
    have hcond := (List.mem_filter.mp hi).2
    simp only [Bool.and_eq_true, beq_iff_eq] at hcond
    exact hcond.1
  unfold foldLine
  split
  · exact h
  · exact Text.WellFormed.join (by decide)
      (breakLine_wellFormed width hplaces (fun hlt => absurd hlt (Nat.lt_irrefl 0)) h (List.forall_mem_nil _))

theorem foldRest_wellFormed (width : Nat) : ∀ {lines : List Text} (breaks : Nat) (deeper : Bool),
    (∀ line ∈ lines, line.WellFormed) → (foldRest width breaks deeper lines).WellFormed
  | [], breaks, _, _ => (Text.isAscii_replicate breaks (by decide)).wellFormed
  | line :: rest, breaks, deeper, h => by
    obtain ⟨hline, hrest⟩ := List.forall_mem_cons.mp h
    have hbreaks : Text.WellFormed (List.replicate breaks 0x0A) := (Text.isAscii_replicate breaks (by decide)).wellFormed
    have hextra (b : Bool) : Text.WellFormed (if b then [0x0A] else []) := by cases b <;> decide
    unfold foldRest
    split
    · exact foldRest_wellFormed width _ _ hrest
    · refine ((hbreaks.append (hextra _)).append (foldLine_wellFormed width hline)).append ?_
      split
      · exact .nil
      · exact foldRest_wellFormed width _ _ hrest

theorem foldText_wellFormed (width : Nat) {t : Text} (h : t.WellFormed) : (foldText width t).WellFormed := by
  have hlines := h.lines
  unfold foldText
  split
  · exact .nil
  · rename_i first rest heq
    rw [heq] at hlines
    obtain ⟨hfirst, hrest⟩ := List.forall_mem_cons.mp hlines
    refine (foldLine_wellFormed width hfirst).append ?_
    split
    · exact .nil
    · exact foldRest_wellFormed width _ _ hrest

theorem header_isAscii (t : Text) : (header t).IsAscii := by
  have hend : Text.IsAscii [0x0A] := by decide
  have hwidth (b : Bool) : Text.IsAscii (if b then ofString "2" else []) := by cases b <;> decide
  have hchomp (b c : Bool) : Text.IsAscii (if b then ofString "+" else if c then [] else ofString "-") := by
    cases b <;> cases c <;> decide
  exact ((hwidth _).append (hchomp _ _)).append hend

theorem indented_wellFormed (indent : Nat) {t : Text} (h : t.WellFormed) : (indented indent t).WellFormed := by
  have hspaces : Text.WellFormed (List.replicate indent 0x20) := (Text.isAscii_replicate indent (by decide)).wellFormed
  have hlines : ∀ line ∈ t.lines.map (fun line => if line.isEmpty then line else List.replicate indent 0x20 ++ line),
      line.WellFormed := by
    intro line hl
    obtain ⟨l, hmem, rfl⟩ := List.mem_map.mp hl
    split
    · exact h.lines l hmem
    · exact hspaces.append (h.lines l hmem)
  have hend : Text.WellFormed [0x0A] := by decide
  have htext := hend.join hlines
  unfold indented
  dsimp only
  split
  · rename_i hends
    obtain ⟨front, hfront⟩ := List.isSuffixOf_iff_suffix.mp hends
    rw [← hfront, List.dropLast_concat]
    exact (htext.split hfront.symm (by decide)).1
  · exact htext

theorem hexEscape_isAscii (n : Nat) : (hexEscape n).IsAscii := by
  have hbase (n : Nat) : (Text.digits 16 n).IsAscii := Text.digits_isAscii (by decide) n
  have hupper : ∀ k, k < 0x80 → (CodeUnit.toUpper (.ofNat k)).toNat < 0x80 := by decide
  have hdigits : Text.IsAscii ((Text.digits 16 n).map CodeUnit.toUpper) := by
    intro u hu
    obtain ⟨d, hd, rfl⟩ := List.mem_map.mp hu
    have hlt := hupper d.toNat (hbase n d hd)
    rwa [UInt16.ofNat_toNat] at hlt
  have hspelled (letter : String) (size : Nat) (h : (ofString letter).IsAscii) :
      Text.IsAscii (ofString letter ++ List.replicate size 0x30 ++ (Text.digits 16 n).map CodeUnit.toUpper) :=
    (h.append (Text.isAscii_replicate size (by decide))).append hdigits
  by_cases hbyte : n ≤ 0xFF
  · simp only [hexEscape, hbyte, if_true]
    exact hspelled _ _ (by decide)
  · by_cases hunit : n ≤ 0xFFFF
    · simp only [hexEscape, hbyte, hunit, if_false, if_true]
      exact hspelled _ _ (by decide)
    · simp only [hexEscape, hbyte, hunit, if_false]
      exact hspelled _ _ (by decide)

theorem escape_wellFormed {c : Text} (h : c.WellFormed) : (escape c).WellFormed := by
  have hshort : ∀ e ∈ shortEscapes, (ofString e.2).IsAscii := by decide
  unfold escape
  dsimp only
  split
  · rename_i heq
    exact (hshort _ (List.mem_of_find?_eq_some heq)).wellFormed
  · split
    · exact h
    · exact (hexEscape_isAscii _).wellFormed

theorem text_wellFormed (level : Nat) (isKey : Bool) {t : Text} (h : t.WellFormed) :
    (text level isKey t).WellFormed := by
  have hsingle : (ofString "'").WellFormed := by decide
  have hdouble : (ofString "\"").WellFormed := by decide
  have hliteral : (ofString "|").WellFormed := by decide
  have hfolding : (ofString ">").WellFormed := by decide
  have hheader := (header_isAscii t).wellFormed
  have hdoubled : Text.WellFormed (t.flatMap fun u => if u == 0x27 then [u, u] else [u]) := by
    refine h.flatMap (fun u hu => ?_) (fun u hu => ?_)
    · rw [if_neg]
      intro hq
      rw [eq_of_beq hq] at hu
      cases hu
    · split
      · exact .unit hu (.unit hu .nil)
      · exact .unit hu .nil
  have hescaped : Text.WellFormed (t.codePoints.flatMap escape) := by
    rw [List.flatMap_def]
    refine Text.WellFormed.flatten fun e he => ?_
    obtain ⟨c, hc, rfl⟩ := List.mem_map.mp he
    exact escape_wellFormed (h.of_mem_codePoints hc)
  unfold text
  dsimp only
  split
  · decide
  · split
    · exact (hsingle.append h).append hsingle
    · split
      · exact h
      · exact (hsingle.append hdoubled).append hsingle
      · exact (hliteral.append hheader).append (indented_wellFormed _ h)
      · exact (hfolding.append hheader).append (indented_wellFormed _ (foldText_wellFormed _ h))
      · exact (hdouble.append hescaped).append hdouble

theorem number_isAscii (n : Binary64) : (number n).IsAscii := by
  unfold number
  split
  · decide
  · decide
  · decide
  · split
    · decide
    · split
      · intro u hu
        obtain ⟨w, hw, hu⟩ := List.mem_flatMap.mp hu
        split at hu
        · have hpoint : (ofString ".e").IsAscii := by decide
          exact hpoint u hu
        · rw [List.mem_singleton.mp hu]
          exact Binary64.toText_isAscii _ w hw
      · exact Binary64.toText_isAscii _

theorem marked_wellFormed {mark t : Text} (hm : mark.WellFormed) (ht : t.WellFormed) : (marked mark t).WellFormed := by
  have hspace : Text.WellFormed [0x20] := by decide
  unfold marked
  split
  · exact hm.append ht
  · exact (hm.append hspace).append ht

theorem entries_wellFormed (level : Nat) (compact : Bool) {parts : List Text} (h : ∀ p ∈ parts, p.WellFormed) :
    (entries level compact parts).WellFormed := by
  have hlines : ∀ {parts : List Text}, (∀ p ∈ parts, p.WellFormed) →
      Text.WellFormed (parts.flatMap fun part => newline level ++ part) := by
    intro parts h
    rw [List.flatMap_def]
    refine Text.WellFormed.flatten fun line hl => ?_
    obtain ⟨p, hp, rfl⟩ := List.mem_map.mp hl
    exact (Text.isAscii_newline _).wellFormed.append (h p hp)
  unfold entries
  dsimp only
  split
  · cases parts with
    | nil => rw [List.flatMap_nil, List.drop_nil]; exact .nil
    | cons p parts =>
      obtain ⟨hp, hparts⟩ := List.forall_mem_cons.mp h
      have hlen : (newline level).length = 2 * level + 1 := by simp [newline]
      rw [List.flatMap_cons, List.append_assoc, List.drop_left' hlen]
      exact hp.append (hlines hparts)
  · exact hlines h

mutual

theorem node_wellFormed (level : Nat) (compact : Bool) : ∀ {v : Value}, v.WellFormed →
    (node level compact v).WellFormed
  | .null, _ => show Text.WellFormed (ofString "null") by decide
  | .bool true, _ => show Text.WellFormed (ofString "true") by decide
  | .bool false, _ => show Text.WellFormed (ofString "false") by decide
  | .number n, _ => (number_isAscii n).wellFormed
  | .text _, h => text_wellFormed level false h
  | .list items, h => by
    unfold node
    split
    · decide
    · exact entries_wellFormed level compact (listItems_wellFormed level h)
  | .record fields, h => by
    unfold node
    split
    · decide
    · exact entries_wellFormed level compact (recordFields_wellFormed level h)

theorem listItems_wellFormed (level : Nat) : ∀ {items : List Value}, Value.ItemsWellFormed items →
    ∀ p ∈ listItems level items, p.WellFormed
  | [], _ => List.forall_mem_nil _
  | _ :: _, ⟨hv, hrest⟩ => by
    have hmark : Text.WellFormed [0x2D] := by decide
    have hitem := marked_wellFormed hmark (node_wellFormed (level + 1) true hv)
    exact List.forall_mem_cons.mpr ⟨hitem, listItems_wellFormed level hrest⟩

theorem recordFields_wellFormed (level : Nat) : ∀ {fields : List (Text × Value)}, Value.FieldsWellFormed fields →
    ∀ p ∈ recordFields level fields, p.WellFormed
  | [], _ => List.forall_mem_nil _
  | (_, _) :: _, ⟨hname, hv, hrest⟩ => by
    have hcolon : Text.WellFormed [0x3A] := by decide
    have hkey := (text_wellFormed (level + 1) true hname).append hcolon
    have hfield := marked_wellFormed hkey (node_wellFormed (level + 1) false hv)
    exact List.forall_mem_cons.mpr ⟨hfield, recordFields_wellFormed level hrest⟩

end

end Yaml.Writer

theorem Yaml.write_wellFormed {v : Value} (h : v.WellFormed) : (write v).WellFormed := by
  have hend : Text.WellFormed [0x0A] := by decide
  exact (Writer.node_wellFormed 0 true h).append hend

end Typeahead
