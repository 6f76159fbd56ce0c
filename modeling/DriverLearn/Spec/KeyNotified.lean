import DriverLearn.ForStd.Run
import DriverLearn.Native.KeyRead

/-!
# Key changes and the poll flag

While user space has not seen the current keys, `my_key_poll` should report them. An event
sets `ev_press` behind every change of a key, but `my_key_read` clears it without a look at
the result of `copy_to_user`, and without a look at the keys, which may have changed since
it composed its value. The law holds over a run iff `ev_press` is only ever cleared while
the keys are the ones the user has.

## Key results

- `step_readInv`: what is known at each statement of `my_key_read`
- `step_notified`: the law is lost only where `ev_press` is cleared
- `notified_iff`: the exact condition over whole runs
-/

namespace KeyRead

open Word

/-- The law in one state: as long as the keys are not those last delivered, `ev_press` is
    set, and `my_key_poll` reports `POLLIN`. -/
def Notified (s : Sys) : Prop :=
  composeKeyVal s.dev ≠ s.delivered → s.dev.evPress ≠ 0 ∧ has (myKeyPoll s.dev) pollIn = true

/-- When `my_key_read` clears `ev_press`, the keys are still those it composed and the copy
    succeeded, or it failed and the user has them from an earlier copy. -/
def Settled (s : Sys) : Step → Prop
  | .user (.next _) =>
    match s.pc with
    | .copied keyVal ret =>
      composeKeyVal s.dev = if ret = 0 then keyVal else s.delivered
    | _ => True
  | _ => True

/-! ### Statements -/

/-- The mask has `POLLIN` just if there is something to read. -/
theorem myKeyPoll_pollIn (s : KeyDev) : has (myKeyPoll s) pollIn = true ↔ s.evPress ≠ 0 := by
  rw [myKeyPoll]
  split
  · next hpress => exact iff_of_true (by decide) hpress
  · next hpress => exact iff_of_false (by decide) hpress

/-- A process is notified of a value that it has not got just if `ev_press` is set. -/
theorem notified_iff_evPress (s : Sys) :
    Notified s ↔ (composeKeyVal s.dev ≠ s.delivered → s.dev.evPress ≠ 0) := by
  rw [Notified, myKeyPoll_pollIn, and_self]

/-- Every key event sets `ev_press`. -/
theorem handle_evPress (e : KeyEvent) (s : KeyDev) : (e.handle s).evPress ≠ 0 := by
  cases e <;> exact Int.one_ne_zero

/-- What is known inside a call of `my_key_read`: before the copy a key that changed since
    the value was composed has set `ev_press`, and behind a successful copy the user has
    that value. -/
def ReadInv (s : Sys) : Prop :=
  match s.pc with
  | .idle => True
  | .composed keyVal _ => composeKeyVal s.dev ≠ keyVal → s.dev.evPress ≠ 0
  | .checked keyVal => composeKeyVal s.dev ≠ keyVal → s.dev.evPress ≠ 0
  | .copied keyVal ret => ret = 0 → s.delivered = keyVal
  | .cleared => True

/-- A statement of `my_key_read` keeps the invariant. -/
theorem readStatement_readInv (left : Nat) {s : Sys} (h : ReadInv s) :
    ReadInv (readStatement left s) := by
  obtain ⟨dev, pc, delivered⟩ := s
  cases pc with
  | idle => trivial
  | composed keyVal count =>
    by_cases hcount : count ≠ 4
    · simp only [readStatement, if_pos hcount, ReadInv]
    · simp only [readStatement, if_neg hcount]
      exact h
  -- a copy that leaves no byte delivers the value
  | checked keyVal => exact fun hleft => if_pos hleft
  | copied keyVal ret => trivial
  | cleared => trivial

/-- So does every step. -/
theorem step_readInv (s : Sys) (e : Step) (h : ReadInv s) : ReadInv (step s e) := by
  cases e with
  | event e =>
    have hpress := handle_evPress e s.dev
    obtain ⟨dev, pc, delivered⟩ := s
    cases pc with
    | idle => trivial
    | composed keyVal count => exact fun _ => hpress
    -- an event sets `ev_press`, whatever it does to the keys
    | checked keyVal => exact fun _ => hpress
    | copied keyVal ret => exact h
    | cleared => trivial
  | user u =>
    cases u with
    | read count =>
      rw [step, userStep]
      split
      · exact fun hne => absurd rfl hne
      · exact h
    | next left => exact readStatement_readInv left h
    | poll => exact h

/-- The invariant holds in every state of every run. -/
theorem run_readInv (steps : List Step) : ReadInv (run Sys.init steps) := by
  induction steps using List.reverseRecOn with
  | nil => trivial
  | append_singleton steps e ih =>
    rw [run, List.foldl_append]
    exact step_readInv _ e ih

/-- Any other step than the one that clears `ev_press` keeps the law; that one brings it
    about exactly if the keys are settled. -/
theorem step_notified (s : Sys) (e : Step) (h : Notified s) (hinv : ReadInv s) :
    Notified (step s e) ↔ Settled s e := by
  rw [notified_iff_evPress] at h ⊢
  cases e with
  | event e => exact iff_of_true (fun _ => handle_evPress e s.dev) trivial
  | user u =>
    cases u with
    | read count =>
      refine iff_of_true ?_ trivial
      rw [step, userStep]
      split <;> exact h
    | poll => exact iff_of_true h trivial
    | next left =>
      obtain ⟨dev, pc, delivered⟩ := s
      cases pc with
      | idle => exact iff_of_true h trivial
      | composed keyVal count => exact iff_of_true h trivial
      | checked keyVal =>
        refine iff_of_true ?_ trivial
        -- a successful copy delivers a value older than the keys only if `ev_press` is set
        by_cases hleft : left = 0
        · simp only [step, userStep, readStatement, if_pos hleft]
          exact hinv
        · simp only [step, userStep, readStatement, if_neg hleft]
          exact h
      -- `ev_press = 0`: right iff the value delivered is the current one
      | copied keyVal ret =>
        have hsettled : (if ret = 0 then keyVal else delivered) = delivered := by
          split
          · next hret => exact (hinv hret).symm
          · rfl
        simp only [Settled, hsettled]
        constructor
        · intro hafter
          by_contra hne
          exact hafter hne rfl
        · exact fun heq hne => absurd heq hne
      | cleared => exact iff_of_true h trivial

/-! ### Runs -/

/-- In the beginning there is nothing to be notified of. -/
theorem notified_init : Notified Sys.init := by
  rw [notified_iff_evPress]
  exact fun hne => absurd (by decide) hne

/-- For every sequence of events, reads and polls, whatever the events find at the pins,
    wherever they come and whichever copies fault: the law holds in every state reached iff
    the keys are settled whenever `ev_press` is cleared. -/
theorem notified_iff (steps : List Step) :
    (∀ pre post, steps = pre ++ post → Notified (run Sys.init pre)) ↔
      Run.Guarded step Settled Sys.init steps := by
  constructor
  · intro h
    rw [Run.guarded_iff]
    intro pre e post heq
    have hbefore := h pre (e :: post) heq
    have hafter := h (pre ++ [e]) post (by rw [heq, List.append_assoc]; rfl)
    rw [run, List.foldl_append] at hafter
    exact (step_notified _ e hbefore (run_readInv pre)).mp hafter
  · intro hsettled pre post heq
    rw [heq] at hsettled
    have hstep : ∀ s e, Notified s ∧ ReadInv s → Settled s e →
        Notified (step s e) ∧ ReadInv (step s e) := by
      intro s e ⟨hnotified, hinv⟩ he
      exact ⟨(step_notified s e hnotified hinv).mpr he, step_readInv s e hinv⟩
    have hpre := (Run.guarded_append.mp hsettled).1
    exact (Run.foldl_of_guarded hstep ⟨notified_init, trivial⟩ hpre).1

/-- The first key is pressed, and the others are not. -/
def firstKey : Gpio := fun pin => if pin = .gpf0 then 0 else 1

/-- A key of `key_irq_drv.c` is pressed, the copy of the read behind it faults, and the
    read clears `ev_press` all the same; in `key_jiffer_drv.c` the timer callback comes
    between the copy and the end of the read. -/
theorem notified_fails :
    (¬ ∀ steps, (∀ gpio, .event (.keryTimer gpio) ∉ steps) → Notified (run Sys.init steps)) ∧
    ¬ ∀ steps, (∀ gpio i, .event (.buttonsIrq gpio i) ∉ steps) →
      Notified (run Sys.init steps) := by
  constructor
  · intro h
    have hlaw := h [.event (.buttonsIrq firstKey 0), .user (.read 4), .user (.next 0),
      .user (.next 4), .user (.next 0)] (by simp)
    exact (hlaw (by decide)).1 rfl
  · intro h
    have hlaw := h [.user (.read 4), .user (.next 0), .user (.next 0),
      .event (.keryTimer firstKey), .user (.next 0)] (by simp)
    exact (hlaw (by decide)).1 rfl

end KeyRead
