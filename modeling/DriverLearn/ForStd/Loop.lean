import Mathlib.Logic.Relation
import Mathlib.Tactic.Common

/-!
# Loops that may end

A loop is a function `turn` that makes a state into the next state or into the result
of the loop. `Visits` lists the states of a loop that ends, `Reaches` says that a state
comes up at all, and `iterate` runs the loop with fuel.

## Key results

- `Reaches.inv`: the invariant rule
- `exists_visits`, `exists_iterate`: a loop whose turns decrease a measure ends
- `Visits.iterate_eq`: fuel for every visited state is enough
- `Visits.mem_iff`: the states visited are the states reached
-/

namespace Loop

variable {α β : Type*} {turn : α → α ⊕ β}

/-- From a state on, the loop visits these states and gives this result. -/
inductive Visits (turn : α → α ⊕ β) : α → List α → β → Prop
  | last {x : α} {b : β} (h : turn x = .inr b) : Visits turn x [x] b
  | more {x y : α} {xs : List α} {b : β} (h : turn x = .inl y) (rest : Visits turn y xs b) :
      Visits turn x (x :: xs) b

/-- The second state comes up in the loop from the first one on. -/
def Reaches (turn : α → α ⊕ β) : α → α → Prop :=
  Relation.ReflTransGen fun x y => turn x = .inl y

/-- The loop with fuel for `fuel` turns. -/
def iterate (turn : α → α ⊕ β) : (fuel : Nat) → α → Option β
  | 0, _ => none
  | fuel + 1, x =>
    match turn x with
    | .inl y => iterate turn fuel y
    | .inr b => some b

/-! ### Reached states -/

/-- The beginning is reached. -/
theorem Reaches.refl (x : α) : Reaches turn x x := Relation.ReflTransGen.refl

/-- One turn in front. -/
theorem Reaches.head {x y z : α} (h : turn x = .inl y) (hreach : Reaches turn y z) :
    Reaches turn x z :=
  Relation.ReflTransGen.head h hreach

/-- One turn more. -/
theorem Reaches.tail {x y z : α} (hreach : Reaches turn x y) (h : turn y = .inl z) :
    Reaches turn x z :=
  Relation.ReflTransGen.tail hreach h

/-- What the turns preserve holds of every reached state. -/
theorem Reaches.inv {I : α → Prop} {x z : α} (hreach : Reaches turn x z)
    (hstep : ∀ y y', Reaches turn x y → I y → turn y = .inl y' → I y') (hx : I x) : I z := by
  induction hreach with
  | refl => exact hx
  | tail hreach hturn ih => exact hstep _ _ hreach ih hturn

/-- Behind a turn that ends the loop nothing is reached. -/
theorem Reaches.eq_of_inr {x z : α} {b : β} (h : turn x = .inr b) (hreach : Reaches turn x z) :
    z = x := by
  cases hreach.cases_head with
  | inl heq => exact heq.symm
  | inr hstep =>
    obtain ⟨y, hy, -⟩ := hstep
    rw [h] at hy
    cases hy

/-- What is reached is the beginning or is reached behind its turn. -/
theorem Reaches.cases_inl {x y z : α} (h : turn x = .inl y) (hreach : Reaches turn x z) :
    z = x ∨ Reaches turn y z := by
  cases hreach.cases_head with
  | inl heq => exact Or.inl heq.symm
  | inr hstep =>
    obtain ⟨y', hy', hrest⟩ := hstep
    rw [h, Sum.inl.injEq] at hy'
    exact Or.inr (hy' ▸ hrest)

/-! ### Loops that end -/

/-- A loop that keeps an invariant and decreases a measure ends. -/
theorem exists_visits {I : α → Prop} (m : α → Nat)
    (hstep : ∀ x y, I x → turn x = .inl y → I y ∧ m y < m x) (x : α) (hx : I x) :
    ∃ xs b, Visits turn x xs b := by
  induction hm : m x using Nat.strongRecOn generalizing x with
  | ind n ih =>
    cases hturn : turn x with
    | inr b => exact ⟨[x], b, .last hturn⟩
    | inl y =>
      obtain ⟨hy, hlt⟩ := hstep x y hx hturn
      obtain ⟨xs, b, hrest⟩ := ih (m y) (hm ▸ hlt) y hy rfl
      exact ⟨x :: xs, b, .more hturn hrest⟩

/-- A loop that ends does so with fuel for each of its turns. -/
theorem Visits.iterate_eq {x : α} {xs : List α} {b : β} (h : Visits turn x xs b) (fuel : Nat)
    (hfuel : xs.length ≤ fuel) : iterate turn fuel x = some b := by
  induction h generalizing fuel with
  | last hturn =>
    cases fuel with
    | zero => simp at hfuel
    | succ fuel => simp [iterate, hturn]
  | more hturn _ ih =>
    cases fuel with
    | zero => simp at hfuel
    | succ fuel =>
      simp only [iterate, hturn]
      exact ih fuel (by simpa using hfuel)

/-- The turns of a loop that ends are those that it reaches. -/
theorem Visits.mem_iff {x z : α} {xs : List α} {b : β} (h : Visits turn x xs b) :
    z ∈ xs ↔ Reaches turn x z := by
  induction h with
  | last hturn =>
    rw [List.mem_singleton]
    constructor
    · intro heq
      exact heq ▸ Reaches.refl _
    · exact Reaches.eq_of_inr hturn
  | more hturn _ ih =>
    rw [List.mem_cons, ih]
    constructor
    · intro hz
      cases hz with
      | inl heq => exact heq ▸ Reaches.refl _
      | inr hrest => exact Reaches.head hturn hrest
    · exact Reaches.cases_inl hturn

/-- A visited state whose turn ends the loop is the last one. -/
theorem Visits.eq_append {x z : α} {xs : List α} {b b' : β} (h : Visits turn x xs b)
    (hz : z ∈ xs) (hend : turn z = .inr b') : b = b' ∧ ∃ pre, xs = pre ++ [z] := by
  induction h with
  | last hturn =>
    rw [List.mem_singleton] at hz
    subst hz
    rw [hturn, Sum.inr.injEq] at hend
    exact ⟨hend, [], rfl⟩
  | more hturn _ ih =>
    rw [List.mem_cons] at hz
    cases hz with
    | inl heq =>
      rw [heq, hturn] at hend
      cases hend
    | inr hrest =>
      obtain ⟨hb, pre, hpre⟩ := ih hrest
      exact ⟨hb, _ :: pre, by rw [hpre, List.cons_append]⟩

/-- The visited states start with the state the loop starts from. -/
theorem Visits.eq_cons {x : α} {xs : List α} {b : β} (h : Visits turn x xs b) :
    ∃ ys, xs = x :: ys := by
  cases h with
  | last => exact ⟨[], rfl⟩
  | more => exact ⟨_, rfl⟩

/-- The last turn gives the result. -/
theorem Visits.turn_last {x z : α} {xs pre : List α} {b : β} (h : Visits turn x xs b)
    (hxs : xs = pre ++ [z]) : turn z = .inr b := by
  induction h generalizing pre with
  | last hturn =>
    have hz := congrArg List.getLast? hxs
    rw [List.getLast?_append] at hz
    simp only [List.getLast?_singleton, Option.some_or, Option.some.injEq] at hz
    rwa [← hz]
  | more hturn hrest ih =>
    obtain ⟨ys, rfl⟩ := hrest.eq_cons
    cases pre with
    | nil => simp at hxs
    | cons p pre => exact ih (List.cons.inj hxs).2

/-- A loop that keeps an invariant and decreases a measure ends within as many turns, with
    what the last turn makes of the invariant. -/
theorem exists_iterate {I : α → Prop} {P : β → Prop} (m : α → Nat)
    (hstep : ∀ x y, I x → turn x = .inl y → I y ∧ m y < m x)
    (hend : ∀ x b, I x → turn x = .inr b → P b) {x : α} (hx : I x) {fuel : Nat}
    (hfuel : m x < fuel) : ∃ b, iterate turn fuel x = some b ∧ P b := by
  induction fuel generalizing x with
  | zero => omega
  | succ fuel ih =>
    rw [iterate]
    cases hturn : turn x with
    | inr b => exact ⟨b, rfl, hend x b hx hturn⟩
    | inl y =>
      obtain ⟨hy, hlt⟩ := hstep x y hx hturn
      exact ih hy (by omega)

/-- What the last turn makes of an invariant holds of the result. -/
theorem Visits.result {I : α → Prop} {P : β → Prop} {x : α} {xs : List α} {b : β}
    (h : Visits turn x xs b) (hstep : ∀ x y, I x → turn x = .inl y → I y)
    (hend : ∀ x b, I x → turn x = .inr b → P b) (hx : I x) : P b := by
  induction h with
  | last hturn => exact hend _ _ hx hturn
  | more hturn _ ih => exact ih (hstep _ _ hx hturn)

end Loop
