import Mathlib.Data.List.Induction

/-! # Histories

A history is the list of the events so far, oldest first. `since p` is what has happened after the
last event that satisfies `p`. -/

namespace MultiPortConvertor.Lib.Histories

universe u

variable {α : Type u}

/-- The events after the last one that satisfies `p`. -/
def since (p : α → Bool) (es : List α) : List α := (es.reverse.takeWhile fun e => !p e).reverse

@[simp] theorem since_nil (p : α → Bool) : since p [] = [] := rfl

theorem since_concat (p : α → Bool) (es : List α) (e : α) :
    since p (es ++ [e]) = if p e then [] else since p es ++ [e] := by
  unfold since
  rw [List.reverse_append, List.reverse_singleton, List.singleton_append, List.takeWhile_cons]
  by_cases he : p e = true
  · simp [he]
  · simp [he]

/-- **What holds of every prefix** of a history holds of the last one and of every prefix of it. -/
theorem forall_prefix_concat {P : List α → Prop} {es : List α} {e : α} :
    (∀ before, before <+: es ++ [e] → P before) ↔ (∀ before, before <+: es → P before) ∧
    P (es ++ [e]) := by
  constructor
  · intro h
    exact ⟨fun before hb => h before (hb.trans (List.prefix_append _ _)), h _ (List.prefix_refl _)⟩
  · rintro ⟨hes, he⟩ before hb
    rcases List.prefix_concat_iff.mp hb with rfl | hb
    · exact he
    · exact hes before hb

end MultiPortConvertor.Lib.Histories
