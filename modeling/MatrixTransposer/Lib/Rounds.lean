import Mathlib.Data.List.Basic
import Mathlib.Tactic.Common

/-!
# Histories made of rounds

A protocol goes through the same events again and again, each time over some item. `Rounds` relates
its history to the events that the round in progress still owes: the two together are whole rounds.
A step that pays an event moves it from one to the other. What each round shows exactly once is then
shown once per item, up to what is still owed.
-/

namespace MatrixTransposer.Lib

variable {α ε : Type*} {round : α → List ε} {history owed : List ε}

/-- The history and what is still owed are whole rounds over some items. -/
def Rounds (round : α → List ε) (history owed : List ε) : Prop :=
  ∃ items : List α, history ++ owed = items.flatMap round

namespace Rounds

theorem nil : Rounds round [] [] := ⟨[], rfl⟩

theorem pay {events : List ε} (h : Rounds round history (events ++ owed)) :
    Rounds round (history ++ events) owed := by
  obtain ⟨items, hitems⟩ := h
  exact ⟨items, by rw [List.append_assoc, hitems]⟩

theorem start (h : Rounds round history []) (item : α) : Rounds round history (round item) := by
  obtain ⟨items, hitems⟩ := h
  rw [List.append_nil] at hitems
  refine ⟨items ++ [item], ?_⟩
  rw [hitems, List.flatMap_append, List.flatMap_singleton]

section Projections

variable {f g : ε → Option α}

theorem filterMap_flatMap (hf : ∀ item, (round item).filterMap f = [item]) (items : List α) :
    (items.flatMap round).filterMap f = items := by
  induction items with
  | nil => rfl
  | cons item items ih =>
      rw [List.flatMap_cons, List.filterMap_append, hf, ih, List.singleton_append]

/-- What every round shows once is shown, or still owed, once per item. -/
theorem exists_filterMap (h : Rounds round history owed) :
    ∃ items : List α, ∀ f : ε → Option α, (∀ item, (round item).filterMap f = [item]) →
      history.filterMap f ++ owed.filterMap f = items := by
  obtain ⟨items, hitems⟩ := h
  refine ⟨items, ?_⟩
  intro f hf
  rw [← List.filterMap_append, hitems, filterMap_flatMap hf]

theorem length_filterMap (h : Rounds round history owed)
    (hf : ∀ item, (round item).filterMap f = [item])
    (hg : ∀ item, (round item).filterMap g = [item]) :
    (history.filterMap f).length + (owed.filterMap f).length =
      (history.filterMap g).length + (owed.filterMap g).length := by
  obtain ⟨items, hitems⟩ := h.exists_filterMap
  rw [← List.length_append, ← List.length_append, hitems f hf, hitems g hg]

/-- What is owed later has been shown for a prefix of the items. -/
theorem filterMap_prefix (h : Rounds round history owed)
    (hf : ∀ item, (round item).filterMap f = [item])
    (hg : ∀ item, (round item).filterMap g = [item])
    (hle : (owed.filterMap f).length ≤ (owed.filterMap g).length) :
    history.filterMap g <+: history.filterMap f := by
  have hlength := h.length_filterMap hf hg
  obtain ⟨items, hitems⟩ := h.exists_filterMap
  apply List.prefix_of_prefix_length_le ⟨_, hitems g hg⟩ ⟨_, hitems f hf⟩
  omega

end Projections

end Rounds

end MatrixTransposer.Lib
