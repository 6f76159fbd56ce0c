import Mathlib.Data.Multiset.AddSub
import Mathlib.Tactic.Common

/-!
# Ledgers

A ledger lists what was taken and what was given back, in order. What is held at its end is
found by settling it entry by entry, which fails where something is given back that is not
held at that moment.
-/

namespace Ledger

variable {ρ : Type} [DecidableEq ρ]

/-- A resource is taken or given back. -/
inductive Entry (ρ : Type) where
  | take (r : ρ)
  | give (r : ρ)
  deriving DecidableEq

/-- The resource an entry is about. -/
def Entry.resource : Entry ρ → ρ
  | .take r => r
  | .give r => r

/-- The entries of the resources in `p`. -/
def only (p : ρ → Bool) (es : List (Entry ρ)) : List (Entry ρ) := es.filter fun e => p e.resource

/-- What is held behind an entry; nothing can be given back that is not held. -/
def post (held : Multiset ρ) : Entry ρ → Option (Multiset ρ)
  | .take r => some (r ::ₘ held)
  | .give r => if r ∈ held then some (held.erase r) else none

/-- What is held behind the ledger, of what was held in front of it. -/
def settle (held : Multiset ρ) (es : List (Entry ρ)) : Option (Multiset ρ) := es.foldlM post held

variable {held : Multiset ρ} {es : List (Entry ρ)} {r : ρ} {h : Multiset ρ}

omit [DecidableEq ρ] in
/-- The entries for some resources in two ledgers. -/
theorem only_append (p : ρ → Bool) (es es' : List (Entry ρ)) :
    only p (es ++ es') = only p es ++ only p es' := List.filter_append es es'

omit [DecidableEq ρ] in
/-- Where all are taken, those of the resources in question stay as they are. -/
theorem only_takes {p : ρ → Bool} {rs : List ρ} (h : ∀ r ∈ rs, p r = true) :
    only p (rs.map .take) = rs.map .take := by
  simp [only, Entry.resource, List.filter_map, Function.comp_def, List.filter_eq_self.mpr h]

omit [DecidableEq ρ] in
/-- Where all are given back, those of the resources in question stay as they are. -/
theorem only_gives {p : ρ → Bool} {rs : List ρ} (h : ∀ r ∈ rs, p r = true) :
    only p (rs.map .give) = rs.map .give := by
  simp [only, Entry.resource, List.filter_map, Function.comp_def, List.filter_eq_self.mpr h]

/-- How often a resource is taken in a list of takes. -/
@[simp] theorem count_take_takes (r : ρ) (rs : List ρ) :
    (rs.map Entry.take).count (Entry.take r) = rs.count r :=
  List.count_map_of_injective rs _ (fun _ _ => Entry.take.inj) r

/-- How often a resource is given back in a list of gives. -/
@[simp] theorem count_give_gives (r : ρ) (rs : List ρ) :
    (rs.map Entry.give).count (Entry.give r) = rs.count r :=
  List.count_map_of_injective rs _ (fun _ _ => Entry.give.inj) r

/-- Nothing is taken in a list of gives. -/
@[simp] theorem count_take_gives (r : ρ) (rs : List ρ) :
    (rs.map Entry.give).count (Entry.take r) = 0 := by
  simp [List.count_eq_zero]

/-- Nothing is given back in a list of takes. -/
@[simp] theorem count_give_takes (r : ρ) (rs : List ρ) :
    (rs.map Entry.take).count (Entry.give r) = 0 := by
  simp [List.count_eq_zero]

/-- Nothing changes what is held. -/
theorem settle_nil : settle held [] = some held := rfl

/-- One entry more at the end. -/
theorem settle_concat (hes : settle held es = some h) (e : Entry ρ) :
    settle held (es ++ [e]) = post h e := by
  rw [settle] at hes
  rw [settle, List.foldlM_append, hes]
  exact bind_pure (post h e)

/-- A take at the end can always be settled. -/
theorem settle_take (hes : settle held es = some h) :
    settle held (es ++ [.take r]) = some (r ::ₘ h) :=
  settle_concat hes (.take r)

/-- A resource that is held can be given back. -/
theorem settle_give (hes : settle held es = some (r ::ₘ h)) :
    settle held (es ++ [.give r]) = some h := by
  rw [settle_concat hes, post, if_pos (Multiset.mem_cons_self r h), Multiset.erase_cons_head]

/-- A ledger is settled behind another one. -/
theorem settle_append (hes : settle held es = some h) (es' : List (Entry ρ)) :
    settle held (es ++ es') = settle h es' := by
  rw [settle] at hes
  rw [settle, List.foldlM_append, hes]
  rfl

/-- One entry more in front. -/
theorem settle_cons (held : Multiset ρ) (e : Entry ρ) (es : List (Entry ρ)) :
    settle held (e :: es) = (post held e).bind (settle · es) := rfl

/-- Takes add what they take. -/
theorem settle_takes (held : Multiset ρ) (rs : List ρ) :
    settle held (rs.map .take) = some ((rs : Multiset ρ) + held) := by
  induction rs generalizing held with
  | nil => simp [settle_nil]
  | cons r rs ih =>
    rw [List.map_cons, settle_cons, post, Option.bind_some, ih, Multiset.add_cons,
      ← Multiset.cons_coe, Multiset.cons_add]

/-- What is held can be given back in any order. -/
theorem settle_gives {rs rs' : List ρ} (hperm : rs.Perm rs') (held : Multiset ρ) :
    settle ((rs' : Multiset ρ) + held) (rs.map .give) = some held := by
  rw [← Multiset.coe_eq_coe.mpr hperm]
  clear hperm
  induction rs with
  | nil => simp [settle_nil]
  | cons r rs ih =>
    rw [List.map_cons, settle_cons, ← Multiset.cons_coe, Multiset.cons_add, post,
      if_pos (Multiset.mem_cons_self r _), Option.bind_some, Multiset.erase_cons_head, ih]

/-- What was held and what was taken are still held or were given back. -/
theorem settle_count (hes : settle held es = some h) (r : ρ) :
    held.count r + es.count (.take r) = h.count r + es.count (.give r) := by
  induction es generalizing held with
  | nil =>
    rw [settle_nil, Option.some.injEq] at hes
    simp [hes]
  | cons e es ih =>
    rw [settle_cons, Option.bind_eq_some_iff] at hes
    obtain ⟨held', hpost, hrest⟩ := hes
    have hcount := ih hrest
    cases e with
    | take r' =>
      rw [post, Option.some.injEq] at hpost
      rw [← hpost, Multiset.count_cons] at hcount
      simp only [List.count_cons, beq_iff_eq, Entry.take.injEq, reduceCtorEq, if_false]
      -- the entry counts on the left, and what it adds on the right
      by_cases hr : r' = r
      · simp only [hr, if_true] at hcount ⊢
        omega
      · simp only [hr, Ne.symm hr, if_false] at hcount ⊢
        omega
    | give r' =>
      rw [post, Option.ite_none_right_eq_some, Option.some.injEq] at hpost
      obtain ⟨hmem, rfl⟩ := hpost
      simp only [List.count_cons, beq_iff_eq, Entry.give.injEq, reduceCtorEq, if_false]
      by_cases hr : r = r'
      · subst hr
        rw [Multiset.count_erase_self] at hcount
        have hpos := Multiset.count_pos.mpr hmem
        simp
        omega
      · rw [Multiset.count_erase_of_ne hr] at hcount
        simp [Ne.symm hr]
        omega

/-- How often `r` was taken more than given back. -/
def balance (r : ρ) (es : List (Entry ρ)) : Int := es.count (.take r) - es.count (.give r)

/-- The balance of two ledgers is the sum. -/
theorem balance_append (r : ρ) (es es' : List (Entry ρ)) :
    balance r (es ++ es') = balance r es + balance r es' := by
  simp only [balance, List.count_append]
  omega

end Ledger
