import Mathlib.Data.List.Basic
import Mathlib.Data.List.Perm.Basic

/-!
# Lists at one element

Where an element stands in `xs ++ ys` when it is not one of `xs`, and what a function that
changes at one element keeps of a list.
-/

namespace List

/-- A split of `xs ++ ys` at an element that is not in `xs` is a split of `ys`. -/
theorem append_eq_append_cons_of_not_mem {α : Type*} {a : α} {xs ys us vs : List α} (ha : a ∉ xs)
    (h : xs ++ ys = us ++ a :: vs) : ∃ us', us = xs ++ us' ∧ ys = us' ++ a :: vs := by
  rcases List.append_eq_append_iff.mp h with ⟨cs, hus, hys⟩ | ⟨cs, hxs, hvs⟩
  · exact ⟨cs, hus, hys⟩
  · cases cs with
    | nil => exact ⟨[], by simpa using hxs.symm, by simpa using hvs.symm⟩
    | cons c cs =>
      rw [List.cons_append, List.cons.injEq] at hvs
      refine absurd ?_ ha
      rw [hxs, ← hvs.1]
      exact List.mem_append_right us List.mem_cons_self

/-- A partial function that gets a value at one more element keeps one value more. -/
theorem filterMap_update_perm {α β : Type*} [DecidableEq α] {f : α → Option β} {xs : List α}
    {a : α} (hnodup : xs.Nodup) (ha : a ∈ xs) (hf : f a = none) (b : β) :
    (xs.filterMap (Function.update f a (some b))).Perm (b :: xs.filterMap f) := by
  induction xs with
  | nil => exact absurd ha List.not_mem_nil
  | cons x xs ih =>
    obtain ⟨hx, hnodup⟩ := List.nodup_cons.mp hnodup
    by_cases hax : a = x
    · subst hax
      have hrest : xs.filterMap (Function.update f a (some b)) = xs.filterMap f := by
        apply List.filterMap_congr
        intro y hy
        exact Function.update_of_ne (ne_of_mem_of_not_mem hy hx) _ _
      rw [List.filterMap_cons_none hf, List.filterMap_cons_some (Function.update_self a _ f), hrest]
    · have hne : Function.update f a (some b) x = f x := Function.update_of_ne (Ne.symm hax) _ _
      have hperm := ih hnodup ((List.mem_cons.mp ha).resolve_left hax)
      cases hfx : f x with
      | none => rwa [List.filterMap_cons_none hfx, List.filterMap_cons_none (hne.trans hfx)]
      | some c =>
        rw [List.filterMap_cons_some hfx, List.filterMap_cons_some (hne.trans hfx)]
        exact (hperm.cons c).trans (List.Perm.swap b c _)

end List
