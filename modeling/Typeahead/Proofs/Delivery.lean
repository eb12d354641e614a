import Mathlib.Data.List.Nodup
import Typeahead.Session.Channel

/-!
# Who is notified

No listener is on a channel twice, and then a chunk is handed to all who listen, in order and once each, though
those who listen once leave at their turn (`Channel.emit_eq`).
-/

namespace Typeahead

namespace Channel

variable {ι : Type} [DecidableEq ι]

theorem subscribe_listeners (c : Channel ι) (l : Listener ι) : (c.subscribe l).listeners =
    if l ∈ c.listeners then c.listeners else c.listeners ++ [l] := by
  unfold subscribe
  split <;> rfl

theorem subscribe_sent (c : Channel ι) (l : Listener ι) : (c.subscribe l).sent = c.sent := by
  unfold subscribe
  split <;> rfl

theorem mem_subscribe {c : Channel ι} {l x : Listener ι} (h : x ∈ (c.subscribe l).listeners) :
    x ∈ c.listeners ∨ x = l := by
  rw [subscribe_listeners] at h
  split at h
  · exact Or.inl h
  · simpa using h

theorem subscribe_nodup {c : Channel ι} (hc : c.listeners.Nodup) (l : Listener ι) :
    (c.subscribe l).listeners.Nodup := by
  rw [subscribe_listeners]
  by_cases hl : l ∈ c.listeners
  · rwa [if_pos hl]
  · rw [if_neg hl]
    apply hc.append (List.nodup_singleton l)
    intro x hx hxl
    rw [List.mem_singleton.mp hxl] at hx
    exact hl hx

theorem unsubscribe_eq {c : Channel ι} {kept rest : List (Listener ι)} {l : Listener ι}
    (hc : c.listeners = kept ++ l :: rest) (hn : c.listeners.Nodup) :
    c.unsubscribe l = { c with listeners := kept ++ rest } := by
  have hother : ∀ x ∈ kept ++ rest, decide (x ≠ l) = true := by
    intro x hx
    rw [hc, List.nodup_middle] at hn
    simp only [decide_eq_true_eq]
    rintro rfl
    exact (List.nodup_cons.mp hn).1 hx
  unfold unsubscribe
  rw [hc, List.filter_append, List.filter_cons_of_neg (by simp), ← List.filter_append,
    List.filter_eq_self.mpr hother]

/-- Those who are notified before a listener do not keep it from its turn. -/
theorem notify_eq : ∀ (rest kept : List (Listener ι)) {c : Channel ι}, c.listeners = kept ++ rest →
    c.listeners.Nodup →
      c.notify rest = ({ c with listeners := kept ++ rest.filter (!·.once) }, rest.map Listener.name)
  | [], kept, c, hc, _ => by
    obtain ⟨listeners, sent⟩ := c
    simp only at hc
    simp [notify, hc]
  | l :: rest, kept, c, hc, hn => by
    have hl : l ∈ c.listeners := by simp [hc]
    rw [notify, if_pos hl]
    by_cases honce : l.once = true
    · have hrest : (kept ++ rest).Nodup := by
        rw [hc, List.nodup_middle] at hn
        exact (List.nodup_cons.mp hn).2
      have ih := notify_eq rest kept (c := { c with listeners := kept ++ rest }) rfl hrest
      simp [honce, unsubscribe_eq hc hn, ih]
    · have ih := notify_eq rest (kept ++ [l]) (c := c) (by simp [hc]) hn
      simp [honce, ih]

/-- A chunk is handed to each listener once, in order of subscription. -/
theorem emit_eq {c : Channel ι} (hc : c.listeners.Nodup) :
    c.emit = ({ c with listeners := c.listeners.filter (!·.once) }, c.listeners.map Listener.name) :=
  notify_eq c.listeners [] rfl hc

def deliveries (c : Channel ι) : List Text → List (Text × List ι)
  | [] => []
  | chunk :: rest => (chunk, c.emit.2) :: c.emit.1.deliveries rest

end Channel

end Typeahead
