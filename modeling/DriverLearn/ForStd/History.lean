import Mathlib.Data.List.Basic
import Mathlib.Logic.Function.Basic
import Mathlib.Tactic.Common

/-!
# Memory as a history of writes

A memory behind a history of writes holds at every address the value of the last write
there, and what it began with where there was none. A read is then a statement about the
history, and the memory need not be mentioned.

Nothing here depends on what an address or a value is.
-/

namespace History

variable {κ ν : Type*} [DecidableEq κ]

/-- What the address holds behind the writes, oldest first. -/
def lastWritten (init : κ → ν) (writes : List (κ × ν)) (k : κ) : ν :=
  match writes.reverse.find? (·.1 = k) with
  | some w => w.2
  | none => init k

@[simp] theorem lastWritten_nil (init : κ → ν) : lastWritten init [] = init := rfl

/-- A write changes its own address. -/
theorem lastWritten_concat (init : κ → ν) (writes : List (κ × ν)) (w : κ × ν) :
    lastWritten init (writes ++ [w]) = Function.update (lastWritten init writes) w.1 w.2 := by
  funext k
  simp only [lastWritten, List.reverse_append, List.reverse_singleton, List.singleton_append,
    List.find?_cons]
  by_cases hk : w.1 = k
  · subst hk
    simp
  · simp only [hk, decide_false, Function.update_of_ne (Ne.symm hk)]
    rfl

/-- Writes one by one give the memory of their history. -/
theorem foldl_update (init : κ → ν) (writes ws : List (κ × ν)) :
    ws.foldl (fun m w => Function.update m w.1 w.2) (lastWritten init writes) =
      lastWritten init (writes ++ ws) := by
  induction ws generalizing writes with
  | nil => simp
  | cons w ws ih =>
    rw [List.foldl_cons, ← lastWritten_concat, ih, List.append_assoc]
    rfl

/-- Writes elsewhere do not matter. -/
theorem lastWritten_append_of_untouched (init : κ → ν) (writes : List (κ × ν)) {ws : List (κ × ν)}
    {k : κ} (h : ∀ w ∈ ws, w.1 ≠ k) :
    lastWritten init (writes ++ ws) k = lastWritten init writes k := by
  induction ws generalizing writes with
  | nil => rw [List.append_nil]
  | cons w ws ih =>
    rw [List.append_cons, ih (writes ++ [w]) fun w' hw' => h w' (List.mem_cons_of_mem w hw'),
      lastWritten_concat, Function.update_of_ne (Ne.symm (h w List.mem_cons_self))]

end History
