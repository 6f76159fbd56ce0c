import DriverLearn.ForStd.Run
import DriverLearn.Native.KeyPoll

/-!
# No key is slept through

Between the look at `ev_press` and the sleep a key may be pressed, and its wake-up come
before the process is asleep. The process is on the queue before it looks, and the wake-up
stays with it until it looks again, so it does not sleep through the key, in any interleaving
of events, readers and any number of waiting processes. In `req_drv.c` the process is not on
the queue, and no event wakes it.

## Key results

- `step_wakeInv`: what each step preserves
- `served_of_wakeInv`: a process in `poll` returns by its own steps
- `served_iff`: which drivers serve every process
-/

namespace KeyPoll

open KeyRead

/-- The process has `n` more turns, and nobody else. -/
def turns (d : Driver) (pid : Nat) : Nat → Sys → Sys
  | 0, s => s
  | n + 1, s => turns d pid n (pollStatement d pid s)

/-- Once a key event is handled and not yet read, every process in `poll` returns `POLLIN`
    after at most three turns, unless its time is over. -/
def Served (d : Driver) (s : Sys) : Prop :=
  s.handler = .idle → s.dev.evPress ≠ 0 → ∀ pid, (s.procs pid).pc ≠ .out →
    (s.procs pid).timedOut = false →
      ((turns d pid 3 s).procs pid).pc = .out ∧
        ((turns d pid 3 s).procs pid).result = pollIn ||| pollRdnorm

/-- What is known of a process: behind `poll_wait` it is on the queue, a mask is that of
    `my_key_poll`, and where it found nothing to read and was not woken there is still
    nothing, or the wake-up is about to come. -/
structure ProcInv (s : Sys) (pid : Nat) : Prop where
  queued : (s.procs pid).pc ≠ .out → (s.procs pid).pc ≠ .entered → pid ∈ s.waitq
  mask : ∀ mask, (s.procs pid).pc = .scanned mask → mask = 0 ∨ mask = pollIn ||| pollRdnorm
  quiet : (s.procs pid).pc = .scanned 0 ∨ (s.procs pid).pc = .asleep →
    (s.procs pid).triggered = false → s.dev.evPress = 0 ∨ s.handler = .pressed

/-- Every process keeps to the protocol of the wait queue. -/
def WakeInv (s : Sys) : Prop := ∀ pid, ProcInv s pid

/-! ### Steps -/

variable {d : Driver} {s : Sys} {pid : Nat}

/-- The process that was set. -/
@[simp] theorem setProc_self (s : Sys) (pid : Nat) (p : Proc) :
    (s.setProc pid p).procs pid = p := by
  simp [Sys.setProc]

/-- The other ones. -/
@[simp] theorem setProc_other (s : Sys) {pid pid' : Nat} (p : Proc) (h : pid' ≠ pid) :
    (s.setProc pid p).procs pid' = s.procs pid' := by
  simp [Sys.setProc, h]

/-- Setting a process changes nothing of the device. -/
@[simp] theorem setProc_dev (s : Sys) (pid : Nat) (p : Proc) : (s.setProc pid p).dev = s.dev := rfl

/-- Setting a process changes nothing of the handler. -/
@[simp] theorem setProc_handler (s : Sys) (pid : Nat) (p : Proc) :
    (s.setProc pid p).handler = s.handler := rfl

/-- Setting a process does not put it on the wait queue. -/
@[simp] theorem setProc_waitq (s : Sys) (pid : Nat) (p : Proc) :
    (s.setProc pid p).waitq = s.waitq := rfl

/-- The first statement of a handler samples the keys; `ev_press` is set by a later one. -/
theorem sampleEvent_evPress (e : KeyEvent) (s : KeyDev) :
    (sampleEvent e s).evPress = s.evPress := by
  cases e with
  | buttonsIrq gpio i => rfl
  | keryTimer gpio => rfl

/-- `my_key_poll` answers with the mask for a readable file, or with none. -/
theorem myKeyPoll_mask (s : KeyDev) : myKeyPoll s = 0 ∨ myKeyPoll s = pollIn ||| pollRdnorm := by
  rw [myKeyPoll]
  split
  · exact .inr rfl
  · exact .inl rfl

/-- It answers with none only if nothing is to be read. -/
theorem myKeyPoll_zero {s : KeyDev} (h : myKeyPoll s = 0) : s.evPress = 0 := by
  rw [myKeyPoll] at h
  split at h
  · exact absurd h (by decide)
  · next hpress => exact not_not.mp hpress

/-- Another process is not affected by what one does to itself, as long as the queue keeps
    it. -/
theorem ProcInv.other {s' : Sys} {pid' : Nat} (h : ProcInv s pid')
    (hproc : s'.procs pid' = s.procs pid') (hdev : s'.dev = s.dev)
    (hhandler : s'.handler = s.handler) (hqueue : pid' ∈ s.waitq → pid' ∈ s'.waitq) :
    ProcInv s' pid' where
  queued := by
    rw [hproc]
    exact fun hout hentered => hqueue (h.queued hout hentered)
  mask := by
    rw [hproc]
    exact h.mask
  quiet := by
    rw [hproc, hdev, hhandler]
    exact h.quiet

/-- A step of one process: the others keep what is known of them. -/
theorem WakeInv.setProc (h : WakeInv s) {s' : Sys} {p : Proc}
    (hprocs : s'.procs = (s.setProc pid p).procs) (hdev : s'.dev = s.dev)
    (hhandler : s'.handler = s.handler)
    (hqueue : ∀ pid', pid' ≠ pid → pid' ∈ s.waitq → pid' ∈ s'.waitq) (hself : ProcInv s' pid) :
    WakeInv s' := by
  intro pid'
  by_cases hpid : pid' = pid
  · exact hpid ▸ hself
  · refine (h pid').other ?_ hdev hhandler (hqueue pid' hpid)
    rw [hprocs, setProc_other s p hpid]

/-- What the handler sets it also wakes for, before it ends. -/
theorem handlerStatement_wakeInv (h : WakeInv s) : WakeInv (handlerStatement s) := by
  rw [handlerStatement]
  split
  · exact h
  -- the wake-up is about to come
  · exact fun pid => ⟨(h pid).queued, (h pid).mask, fun _ _ => .inr rfl⟩
  -- it has come to all on the queue
  · intro pid
    by_cases hqueue : pid ∈ s.waitq
    · have hproc : (wakeUp s).procs pid = { s.procs pid with triggered := true } := if_pos hqueue
      refine ⟨fun _ _ => hqueue, ?_, ?_⟩
      · dsimp only
        rw [hproc]
        exact (h pid).mask
      · dsimp only
        rw [hproc]
        exact fun _ htriggered => Bool.noConfusion htriggered
    · have hproc : (wakeUp s).procs pid = s.procs pid := if_neg hqueue
      refine ⟨?_, ?_, ?_⟩
      · dsimp only
        rw [hproc]
        exact (h pid).queued
      · dsimp only
        rw [hproc]
        exact (h pid).mask
      · dsimp only
        rw [hproc]
        intro hpc
        refine absurd ((h pid).queued ?_ ?_) hqueue
        · rcases hpc with hpc | hpc <;> rw [hpc] <;> exact nofun
        · rcases hpc with hpc | hpc <;> rw [hpc] <;> exact nofun

/-- A process is on the queue before it looks at `ev_press`, if the driver calls `poll_wait`. -/
theorem pollStatement_wakeInv (hd : d.pollWaits = true) (h : WakeInv s) (pid : Nat) :
    WakeInv (pollStatement d pid s) := by
  have hproc := h pid
  simp only [pollStatement]
  split
  · exact h
  -- the process goes on the queue before it looks
  · next hpc =>
    refine h.setProc rfl rfl rfl ?_ ⟨?_, ?_, ?_⟩
    · intro pid' _ hmem
      simp [hd, hmem]
    · simp [hd]
    · simp
    · simp
  · next hpc =>
    have hqueue := hproc.queued (by simp [hpc]) (by simp [hpc])
    refine h.setProc rfl rfl rfl (fun _ _ hmem => hmem) ⟨fun _ _ => hqueue, ?_, ?_⟩
    · intro mask hmask
      simp only [setProc_self, Pc.scanned.injEq] at hmask
      exact hmask ▸ myKeyPoll_mask s.dev
    · intro hzero _
      simp only [setProc_self, Pc.scanned.injEq, reduceCtorEq, or_false] at hzero
      exact .inl (myKeyPoll_zero hzero)
  · next mask hpc =>
    have hqueue := hproc.queued (by simp [hpc]) (by simp [hpc])
    split
    -- the process leaves, and only itself from the queue
    · refine h.setProc rfl rfl rfl ?_ ⟨?_, ?_, ?_⟩
      · intro pid' hne hmem
        simp [hne, hmem]
      · simp
      · simp
      · simp
    · next hstay =>
      push Not at hstay
      split
      · refine h.setProc rfl rfl rfl (fun _ _ hmem => hmem) ⟨fun _ _ => hqueue, ?_, ?_⟩
        · simp
        · simp
      -- it falls asleep with the mask 0
      · refine h.setProc rfl rfl rfl (fun _ _ hmem => hmem) ⟨fun _ _ => hqueue, ?_, ?_⟩
        · simp
        · intro _ htriggered
          rw [setProc_self] at htriggered
          exact hproc.quiet (.inl (hstay.1 ▸ hpc)) htriggered
  · next hpc =>
    have hqueue := hproc.queued (by simp [hpc]) (by simp [hpc])
    split
    · refine h.setProc rfl rfl rfl (fun _ _ hmem => hmem) ⟨fun _ _ => hqueue, ?_, ?_⟩
      · simp
      · simp
    · exact h

/-- Every step keeps the invariant. -/
theorem step_wakeInv (hd : d.pollWaits = true) (s : Sys) (e : Step) (h : WakeInv s) :
    WakeInv (step d s e) := by
  cases e with
  | event e =>
    rw [step]
    split
    -- no handler runs, so the flag is clear, and the new sample leaves it clear
    · next hidle =>
      intro pid
      refine ⟨(h pid).queued, (h pid).mask, fun hpc htriggered => ?_⟩
      have hquiet := (h pid).quiet hpc htriggered
      simp only [hidle, reduceCtorEq, or_false] at hquiet
      exact .inl ((sampleEvent_evPress e s.dev).trans hquiet)
    · exact h
  | handler => exact handlerStatement_wakeInv h
  | call pid =>
    simp only [step]
    split
    · refine h.setProc rfl rfl rfl (fun _ _ hmem => hmem) ⟨?_, ?_, ?_⟩
      · simp
      · simp
      · simp
    · exact h
  | next pid => exact pollStatement_wakeInv hd h pid
  | timeout pid =>
    simp only [step]
    split
    · next hpc =>
      -- the timeout looks once more, with the process still on the queue
      have hqueue := (h pid).queued (by simp [hpc]) (by simp [hpc])
      refine h.setProc rfl rfl rfl (fun _ _ hmem => hmem) ⟨fun _ _ => hqueue, ?_, ?_⟩
      · simp
      · simp
    · exact h
  | clear => exact fun pid => ⟨(h pid).queued, (h pid).mask, fun _ _ => .inl rfl⟩

/-- In the beginning no process is in a call. -/
theorem init_wakeInv : WakeInv Sys.init := fun _ => ⟨fun h => absurd rfl h, nofun, nofun⟩

/-- The invariant holds in every state of every run. -/
theorem run_wakeInv (hd : d.pollWaits = true) (steps : List Step) :
    WakeInv (run d Sys.init steps) := by
  induction steps using List.reverseRecOn with
  | nil => exact init_wakeInv
  | append_singleton steps e ih =>
    rw [run, List.foldl_append]
    exact step_wakeInv hd _ e ih

/-! ### The turns of a process -/

/-- A process on the queue that finds a key gets the mask for it. -/
theorem poll_registered (hpc : (s.procs pid).pc = .registered) (hpress : s.dev.evPress ≠ 0) :
    ((pollStatement d pid s).procs pid).pc = .scanned (pollIn ||| pollRdnorm) := by
  have hmask : myKeyPoll s.dev = pollIn ||| pollRdnorm := if_pos hpress
  simp only [pollStatement, hpc, setProc_self, hmask]

/-- With that mask it leaves the call. -/
theorem poll_scanned (hpc : (s.procs pid).pc = .scanned (pollIn ||| pollRdnorm)) :
    ((pollStatement d pid s).procs pid).pc = .out ∧
      ((pollStatement d pid s).procs pid).result = pollIn ||| pollRdnorm := by
  have hreturns : pollIn ||| pollRdnorm ≠ 0 ∨ (s.procs pid).timedOut = true := .inl (by decide)
  simp only [pollStatement, hpc, if_pos hreturns, setProc_self, and_self]

/-- A process outside a call does nothing. -/
theorem poll_out (hpc : (s.procs pid).pc = .out) : pollStatement d pid s = s := by
  simp only [pollStatement, hpc]

/-- From the look at `ev_press` on two turns are enough. -/
theorem turns_registered (hpc : (s.procs pid).pc = .registered) (hpress : s.dev.evPress ≠ 0) :
    ((turns d pid 2 s).procs pid).pc = .out ∧
      ((turns d pid 2 s).procs pid).result = pollIn ||| pollRdnorm :=
  poll_scanned (poll_registered hpc hpress)

/-- The invariant serves every process that sleeps while there is something to read. -/
theorem served_of_wakeInv (d : Driver) (h : WakeInv s) : Served d s := by
  intro hidle hpress pid hpc htime
  -- with nothing else going on, who found nothing was woken since
  have hwoken : (s.procs pid).pc = .scanned 0 ∨ (s.procs pid).pc = .asleep →
      (s.procs pid).triggered = true := by
    intro hpc
    by_contra htriggered
    rcases (h pid).quiet hpc (Bool.eq_false_iff.mpr htriggered) with hzero | hpressed
    · exact hpress hzero
    · simp [hidle] at hpressed
  cases hcase : (s.procs pid).pc with
  | out => exact absurd hcase hpc
  | entered =>
    have hnext : ((pollStatement d pid s).procs pid).pc = .registered := by
      simp [pollStatement, hcase]
    have hdev : (pollStatement d pid s).dev = s.dev := by
      simp [pollStatement, hcase]
    exact turns_registered (s := pollStatement d pid s) hnext (hdev ▸ hpress)
  | registered =>
    obtain ⟨hout, hresult⟩ := turns_registered (d := d) hcase hpress
    have hlast : turns d pid 3 s = pollStatement d pid (turns d pid 2 s) := rfl
    rw [hlast, poll_out hout]
    exact ⟨hout, hresult⟩
  | scanned mask =>
    rcases (h pid).mask mask hcase with rfl | rfl
    · have hnext : pollStatement d pid s =
          s.setProc pid { s.procs pid with pc := .registered, triggered := false } := by
        simp [pollStatement, hcase, htime, hwoken (.inl hcase)]
      rw [turns, hnext]
      exact turns_registered (by simp) hpress
    · obtain ⟨hout, hresult⟩ := poll_scanned (d := d) hcase
      rw [turns, turns, poll_out hout, turns, poll_out hout]
      exact ⟨hout, hresult⟩
  | asleep =>
    have hnext : pollStatement d pid s =
        s.setProc pid { s.procs pid with pc := .registered, triggered := false } := by
      simp [pollStatement, hcase, hwoken (.inr hcase)]
    rw [turns, hnext]
    exact turns_registered (by simp) hpress

/-! ### Which drivers serve -/

/-- Process 0 falls asleep in `poll`, and then the key of `S2` is pressed. -/
def asleepFirst : List Step :=
  [.call 0, .next 0, .next 0, .next 0, .event (.buttonsIrq (fun _ => 0) ⟨0, by decide⟩),
    .handler, .handler]

/-- Without `poll_wait` a process that falls asleep before the key is pressed sleeps on. -/
theorem not_served (hd : d.pollWaits = false) : ¬ Served d (run d Sys.init asleepFirst) := by
  cases d with
  | keyIrq => simp [Driver.pollWaits] at hd
  | keyJiffer => simp [Driver.pollWaits] at hd
  | req =>
    intro h
    have hserved := h rfl (by decide) 0 (by decide) (by decide)
    exact absurd hserved.1 (by decide)

/-- Every process in `poll` is served in every interleaving, unless the driver leaves it off
    the queue. -/
theorem served_iff (d : Driver) :
    (∀ steps, Served d (run d Sys.init steps)) ↔ d.pollWaits = true := by
  constructor
  · intro h
    by_contra hd
    exact not_served (Bool.eq_false_iff.mpr hd) (h asleepFirst)
  · exact fun hd steps => served_of_wakeInv d (run_wakeInv hd steps)

end KeyPoll
