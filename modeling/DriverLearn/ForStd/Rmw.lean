import DriverLearn.ForStd.Run
import Mathlib.Data.List.Induction
import Mathlib.Logic.Function.Basic

/-!
# Registers that are read and written back

Processes update shared registers by reading one, changing the value, and writing it back, as
two accesses with others in between. What another process wrote in between is lost with the
second access, unless the update would have overwritten it anyway. So if the updates of a
register absorb each other, the register is what the updates make of it in the order in which
they were written back.

## Key results

- `run_inv`: the invariant rule
- `linear_of_absorbs`, `Linear.eq_last`: absorbing updates are not lost, and the last one counts
- `kept`: what no update changes stays
-/

namespace Rmw

variable {ρ σ υ : Type} [DecidableEq ρ]

/-- A process: the updates it has left, and what it has read for the first of them. -/
structure Proc (σ υ : Type) where
  todo : List υ
  loaded : Option σ

/-- The registers, the processes, and the updates written back, in order. -/
structure Shared (ρ σ υ : Type) where
  regs : ρ → σ
  procs : Nat → Proc σ υ
  stored : List υ

def Shared.init (regs : ρ → σ) : Shared ρ σ υ := ⟨regs, fun _ => ⟨[], none⟩, []⟩

/-- A process that has no updates left is given some, or a process makes its next access. -/
inductive Step (υ : Type) where
  | call (pid : Nat) (updates : List υ)
  | access (pid : Nat)

def Shared.setProc (s : Shared ρ σ υ) (pid : Nat) (p : Proc σ υ) : Shared ρ σ υ :=
  { s with procs := Function.update s.procs pid p }

variable (reg : υ → ρ) (apply : υ → σ → σ)

/-- The update `u` is made on `v`, which was read before. -/
def Shared.writeBack (s : Shared ρ σ υ) (u : υ) (v : σ) : Shared ρ σ υ :=
  { s with
    regs := Function.update s.regs (reg u) (apply u v)
    stored := s.stored ++ [u] }

def access (s : Shared ρ σ υ) (pid : Nat) : Shared ρ σ υ :=
  match s.procs pid with
  | ⟨[], _⟩ => s
  | ⟨u :: us, none⟩ => s.setProc pid ⟨u :: us, some (s.regs (reg u))⟩
  | ⟨u :: us, some v⟩ => (s.setProc pid ⟨us, none⟩).writeBack reg apply u v

def step (s : Shared ρ σ υ) : Step υ → Shared ρ σ υ
  | .call pid us => if (s.procs pid).todo.isEmpty then s.setProc pid ⟨us, none⟩ else s
  | .access pid => access reg apply s pid

/-- The updates of a register that were written back. -/
def Shared.storedTo (s : Shared ρ σ υ) (r : ρ) : List υ := s.stored.filter (reg · = r)

/-- The updates that a process is given are in `P`. -/
def Step.Within (P : υ → Prop) : Step υ → Prop
  | .call _ us => ∀ u ∈ us, P u
  | .access _ => True

variable {reg apply}
variable {P : υ → Prop} {r : ρ} {s : Shared ρ σ υ}

/-! ### The invariant rule -/

/-- What is known of a register: `V` of its updates so far and its value, and `L` of an update
    that is under way, the value read for it, and the value of the register now. -/
structure Inv (reg : υ → ρ) (P : υ → Prop) (r : ρ) (V : List υ → σ → Prop)
    (L : υ → σ → σ → Prop) (s : Shared ρ σ υ) : Prop where
  value : V (s.storedTo reg r) (s.regs r)
  todo : ∀ pid, ∀ u ∈ (s.procs pid).todo, P u
  loaded : ∀ pid u us v, s.procs pid = ⟨u :: us, some v⟩ → reg u = r → L u v (s.regs r)

variable {V : List υ → σ → Prop} {L : υ → σ → σ → Prop}

/-- One process gets other updates, or reads a register. -/
theorem Inv.setProc (h : Inv reg P r V L s) {pid : Nat} {p : Proc σ υ} (htodo : ∀ u ∈ p.todo, P u)
    (hloaded : ∀ u us v, p = ⟨u :: us, some v⟩ → reg u = r → L u v (s.regs r)) :
    Inv reg P r V L (s.setProc pid p) where
  value := h.value
  todo := by
    intro pid'
    by_cases hpid : pid' = pid
    · simpa [Shared.setProc, hpid] using htodo
    · simpa [Shared.setProc, hpid] using h.todo pid'
  loaded := by
    intro pid'
    by_cases hpid : pid' = pid
    · simpa [Shared.setProc, hpid] using hloaded
    · simpa [Shared.setProc, hpid] using h.loaded pid'

/-- What a write has to do: it keeps what is known, of the register and of the updates that
    other processes have under way. -/
def Writes (reg : υ → ρ) (apply : υ → σ → σ) (P : υ → Prop) (r : ρ) (V : List υ → σ → Prop)
    (L : υ → σ → σ → Prop) : Prop :=
  ∀ us u x v, P u → reg u = r → V us x → L u v x →
    V (us ++ [u]) (apply u v) ∧ ∀ u' v', P u' → reg u' = r → L u' v' x → L u' v' (apply u v)

theorem Inv.writeBack (hwrites : Writes reg apply P r V L) (h : Inv reg P r V L s) {u : υ} {v : σ}
    (hu : P u) (hv : reg u = r → L u v (s.regs r)) :
    Inv reg P r V L (s.writeBack reg apply u v) := by
  by_cases hreg : reg u = r
  · have hnow : (s.writeBack reg apply u v).regs r = apply u v := by
      rw [Shared.writeBack, hreg]
      exact Function.update_self ..
    have hstored : (s.writeBack reg apply u v).storedTo reg r = s.storedTo reg r ++ [u] := by
      simp [Shared.writeBack, Shared.storedTo, hreg]
    obtain ⟨hvalue, hothers⟩ := hwrites _ u _ v hu hreg h.value (hv hreg)
    refine ⟨?_, h.todo, fun pid u' us v' hproc hreg' => ?_⟩
    · rwa [hnow, hstored]
    · have hu' : P u' := by
        have htodo := h.todo pid
        rw [show s.procs pid = _ from hproc] at htodo
        exact htodo u' (List.mem_cons_self ..)
      rw [hnow]
      exact hothers u' v' hu' hreg' (h.loaded pid u' us v' hproc hreg')
  · have hkept : (s.writeBack reg apply u v).regs r = s.regs r :=
      Function.update_of_ne (Ne.symm hreg) ..
    have hstored : (s.writeBack reg apply u v).storedTo reg r = s.storedTo reg r := by
      simp [Shared.writeBack, Shared.storedTo, hreg]
    refine ⟨?_, h.todo, fun pid u' us v' hproc hreg' => ?_⟩
    · rw [hkept, hstored]
      exact h.value
    · rw [hkept]
      exact h.loaded pid u' us v' hproc hreg'

theorem Inv.access (hreads : ∀ us u x, P u → reg u = r → V us x → L u x x)
    (hwrites : Writes reg apply P r V L) (h : Inv reg P r V L s) (pid : Nat) :
    Inv reg P r V L (access reg apply s pid) := by
  have htodo := h.todo pid
  have hread := h.loaded pid
  rw [Rmw.access]
  match hproc : s.procs pid with
  | ⟨[], _⟩ => exact h
  | ⟨u :: us, none⟩ =>
    rw [hproc] at htodo
    refine h.setProc htodo fun u' us' v heq hreg => ?_
    simp only [Proc.mk.injEq, List.cons.injEq, Option.some.injEq] at heq
    obtain ⟨⟨rfl, -⟩, rfl⟩ := heq
    rw [hreg]
    exact hreads _ u _ (htodo u (List.mem_cons_self ..)) hreg h.value
  | ⟨u :: us, some v⟩ =>
    rw [hproc] at htodo
    have hrest : Inv reg P r V L (s.setProc pid ⟨us, none⟩) :=
      h.setProc (fun u' hu' => htodo u' (List.mem_cons_of_mem u hu'))
        (fun _ _ _ heq => by simp at heq)
    exact hrest.writeBack hwrites (htodo u (List.mem_cons_self ..)) (hread u us v hproc)

/-- What holds in the beginning, of what is read, and behind every write holds in every run. -/
theorem run_inv (regs : ρ → σ) (hinit : V [] (regs r))
    (hreads : ∀ us u x, P u → reg u = r → V us x → L u x x)
    (hwrites : Writes reg apply P r V L) {steps : List (Step υ)}
    (hsteps : ∀ e ∈ steps, e.Within P) :
    Inv reg P r V L (steps.foldl (step reg apply) (Shared.init regs)) := by
  have hstart : Inv reg P r V L (Shared.init regs) :=
    ⟨hinit, fun _ _ hu => by simp [Shared.init] at hu,
      fun _ _ _ _ hproc => by simp [Shared.init] at hproc⟩
  have hguarded : Run.Guarded (step reg apply) (fun _ e => Step.Within P e) (Shared.init regs)
      steps :=
    (Run.guarded_iff_forall (Q := Step.Within P) fun _ _ => Iff.rfl).mpr hsteps
  refine Run.foldl_of_guarded (fun s e h hwithin => ?_) hstart hguarded
  cases e with
  | access pid => exact h.access hreads hwrites pid
  | call pid us =>
    rw [step]
    split
    · exact h.setProc hwithin (fun _ _ _ heq => by simp at heq)
    · exact h

/-! ### Updates that absorb each other -/

/-- The updates in `P` overwrite what another of them does to the register. -/
def Absorbs (reg : υ → ρ) (apply : υ → σ → σ) (P : υ → Prop) (r : ρ) : Prop :=
  ∀ u v, P u → P v → reg u = r → reg v = r → ∀ x, apply u (apply v x) = apply u x

/-- The register is what its updates make of `x`, all of them in `P`. -/
structure Linear (apply : υ → σ → σ) (P : υ → Prop) (x : σ) (us : List υ) (y : σ) : Prop where
  eq_foldl : y = us.foldl (fun x u => apply u x) x
  within : ∀ u ∈ us, P u

/-- If the updates of a register absorb each other, then in every run none is lost. -/
theorem linear_of_absorbs (habs : Absorbs reg apply P r) (regs : ρ → σ) {steps : List (Step υ)}
    (hsteps : ∀ e ∈ steps, e.Within P) :
    Linear apply P (regs r) ((steps.foldl (step reg apply) (Shared.init regs)).storedTo reg r)
      ((steps.foldl (step reg apply) (Shared.init regs)).regs r) := by
  -- a value that was read is as good as the one that is there now
  refine (run_inv regs (V := Linear apply P (regs r)) (L := fun u v x => apply u v = apply u x)
    ⟨rfl, by simp⟩ (fun _ _ _ _ _ _ => rfl) ?_ hsteps).value
  intro us u x v hu hreg hlinear hv
  refine ⟨⟨?_, ?_⟩, fun u' v' hu' hreg' hv' => ?_⟩
  · rw [hv, List.foldl_append, ← hlinear.eq_foldl]
    rfl
  · intro u' hu'
    rw [List.mem_append, List.mem_singleton] at hu'
    cases hu' with
    | inl hold => exact hlinear.within u' hold
    | inr hnew => exact hnew ▸ hu
  · have hnow := habs u' u hu' hu hreg' hreg x
    rw [hv]
    exact hv'.trans hnow.symm

omit [DecidableEq ρ] in
/-- Then the register is what the last update alone makes of its first value. -/
theorem Linear.eq_last (habs : Absorbs reg apply P r) {x y : σ} {us : List υ}
    (h : Linear apply P x us y) (hregs : ∀ u ∈ us, reg u = r) :
    y = (us.getLast?.map fun u => apply u x).getD x := by
  rw [h.eq_foldl]
  have hwithin := h.within
  clear h
  induction us using List.reverseRecOn with
  | nil => rfl
  | append_singleton us u ih =>
    have hlast := ih (fun v hv => hregs v (by simp [hv])) (fun v hv => hwithin v (by simp [hv]))
    rw [List.foldl_append, hlast]
    cases hprev : us.getLast? with
    | none => simp
    | some v =>
      have hv := List.mem_of_getLast? hprev
      simpa using habs u v (hwithin u (by simp)) (hwithin v (by simp [hv])) (hregs u (by simp))
        (hregs v (by simp [hv])) x

/-! ### Parts that no update changes -/

/-- A part of a register that every update keeps stays as it is, also where updates are lost. -/
theorem kept {τ : Type} (part : σ → τ)
    (hkeeps : ∀ u, P u → reg u = r → ∀ x, part (apply u x) = part x) (regs : ρ → σ)
    {steps : List (Step υ)}
    (hsteps : ∀ e ∈ steps, e.Within P) :
    part ((steps.foldl (step reg apply) (Shared.init regs)).regs r) = part (regs r) := by
  refine (run_inv regs (V := fun _ x => part x = part (regs r))
    (L := fun _ v _ => part v = part (regs r)) rfl (fun _ _ _ _ _ h => h) ?_ hsteps).value
  intro _ u _ v hu hreg _ hv
  exact ⟨(hkeeps u hu hreg v).trans hv, fun _ _ _ _ h => h⟩

end Rmw
