import DriverLearn.ForStd.Memory

/-!
# Programs that touch a memory

A program on a memory returns a value and leaves a memory, and it keeps the addresses that
it read or wrote. `Inside n` says that all of them lie below `n`: a program in sequence is
inside if its parts are, each from the memory that the parts before it have left.
-/

namespace Memory

variable {α β γ : Type}

/-- What a program returns, the memory behind it, and the addresses it touched. -/
structure Outcome (α β : Type) where
  value : β
  cells : Nat → α
  touched : List Nat

/-- A program over a memory: its result, the memory behind it and the offsets it touches. -/
structure Access (α β : Type) where
  run : (Nat → α) → Outcome α β

instance : Monad (Access α) where
  pure b := ⟨fun m => ⟨b, m, []⟩⟩
  bind p f := ⟨fun m =>
    let front := p.run m
    let rest := (f front.value).run front.cells
    ⟨rest.value, rest.cells, front.touched ++ rest.touched⟩⟩

/-- One cell is loaded. -/
def loadCell (off : Nat) : Access α α := ⟨fun m => ⟨m off, m, [off]⟩⟩

/-- The `n` cells from `off` on are loaded. -/
def load (off n : Nat) : Access α (List α) :=
  ⟨fun m => ⟨readBytes m off n, m, List.range' off n⟩⟩

/-- The elements are stored from `off` on. -/
def store (off : Nat) (bs : List α) : Access α Unit :=
  ⟨fun m => ⟨(), writeBytes m off bs, List.range' off bs.length⟩⟩

/-- The ranges of `n` cells from `a` and from `b` on change places. -/
def swap (a b n : Nat) : Access α Unit := do
  let tmp ← load a n
  let other ← load b n
  store a other
  store b tmp

variable {n off k : Nat} {m : Nat → α}

/-! ### Values and memories -/

/-- A program without accesses has its value as result. -/
@[simp] theorem pure_value (b : β) : ((pure b : Access α β).run m).value = b := rfl

/-- A program without accesses leaves the memory. -/
@[simp] theorem pure_cells (b : β) : ((pure b : Access α β).run m).cells = m := rfl

/-- The second program runs on the memory that the first one leaves. -/
@[simp] theorem bind_value (p : Access α β) (f : β → Access α γ) :
    ((p >>= f).run m).value = ((f (p.run m).value).run (p.run m).cells).value := rfl

/-- The memory behind two programs is that behind the second one. -/
@[simp] theorem bind_cells (p : Access α β) (f : β → Access α γ) :
    ((p >>= f).run m).cells = ((f (p.run m).value).run (p.run m).cells).cells := rfl

/-- The result of a load is the content of the cell. -/
@[simp] theorem loadCell_value : ((loadCell off).run m).value = m off := rfl

/-- A load leaves the memory. -/
@[simp] theorem loadCell_cells : ((loadCell off).run m).cells = m := rfl

/-- The result of a load of many cells is their contents, in order. -/
@[simp] theorem load_value : ((load off n).run m).value = readBytes m off n := rfl

/-- A load of many cells leaves the memory. -/
@[simp] theorem load_cells : ((load off n).run m).cells = m := rfl

/-- A store leaves the elements in the memory. -/
@[simp] theorem store_cells (bs : List α) :
    ((store off bs).run m).cells = writeBytes m off bs := rfl

/-- A swap exchanges the two blocks. -/
@[simp] theorem swap_cells (a b : Nat) : ((swap a b n).run m).cells = exchange m a b n := rfl

/-! ### Addresses -/

/-- The program touches no address from `n` on. -/
def Inside (n : Nat) (p : Access α β) (m : Nat → α) : Prop := ∀ a ∈ (p.run m).touched, a < n

/-- No access is always inside. -/
theorem inside_pure (b : β) : Inside n (pure b : Access α β) m :=
  fun _ h => absurd h List.not_mem_nil

/-- Two programs stay inside if each of them does, from the memory it begins with. -/
theorem inside_bind (p : Access α β) (f : β → Access α γ) :
    Inside n (p >>= f) m ↔ Inside n p m ∧ Inside n (f (p.run m).value) (p.run m).cells :=
  List.forall_mem_append

/-- A load stays inside if its cell is. -/
theorem inside_loadCell : Inside n (loadCell off) m ↔ off < n := List.forall_mem_singleton

/-- The numbers from `off` on are below `n` if there are none or the last one is. -/
theorem forall_range'_lt : (∀ a ∈ List.range' off k, a < n) ↔ k = 0 ∨ off + k ≤ n := by
  constructor
  · intro h
    by_cases hk : k = 0
    · exact .inl hk
    · have hlast := h (off + (k - 1)) (List.mem_range'_1.mpr (by omega))
      exact .inr (by omega)
  · intro h a ha
    have hrange := List.mem_range'_1.mp ha
    omega

/-- A load of many cells stays inside if it is empty or ends inside. -/
theorem inside_load : Inside n (load off k) m ↔ k = 0 ∨ off + k ≤ n := forall_range'_lt

/-- A store stays inside if it is empty or ends inside. -/
theorem inside_store (bs : List α) :
    Inside n (store off bs) m ↔ bs.length = 0 ∨ off + bs.length ≤ n := forall_range'_lt

/-- A swap stays inside if it is empty or both blocks end inside. -/
theorem inside_swap {a b : Nat} :
    Inside n (swap a b k) m ↔ k = 0 ∨ a + k ≤ n ∧ b + k ≤ n := by
  simp only [swap, inside_bind, inside_load, inside_store, load_value, length_readBytes]
  omega

end Memory
