import DriverLearn.ForStd.Run
import DriverLearn.Native.KeyJiffer

/-!
# Debouncing

An edge arms the timer for `HZ/100 + 1` jiffies, and a later edge arms it anew, so that the
callback runs only after the keys have been quiet for that long. It samples all four keys,
whichever of them had the edges.

## Key results

- `run_armed`: the pending expiry lies behind every edge by the delay
- `composeKeyVal_sampled`: the bits `my_key_read` composes behind a callback
- `debounced`: the law over whole timed runs
-/

namespace KeyJiffer

open KeyRead (Gpio KeyDev UserStep composeKeyVal pressed)

/-- The delay. -/
def delay (hz : Nat) : Nat := hz / 100 + 1

/-- The act is an edge. -/
def Act.isEdge : Act → Bool
  | .edge _ _ => true
  | _ => false

/-- The act is the callback of the timer. -/
def Act.isCallback : Act → Bool
  | .callback => true
  | _ => false

variable {hz : Nat} {gpio : Gpio} {s : TimedSys} {acts : List (Nat × Act)}

/-! ### The timer -/

/-- Acts behind others. -/
theorem run_append (hz : Nat) (gpio : Gpio) (acts acts' : List (Nat × Act)) :
    run hz gpio (acts ++ acts') = acts'.foldl (step hz) (run hz gpio acts) := by
  rw [run, List.foldl_append]
  rfl

/-- An act sets the time. -/
theorem step_now (s : TimedSys) (e : Nat × Act) : (step hz s e).now = e.1 := by
  obtain ⟨t, a⟩ := e
  cases a <;> rfl

/-- No act of a possible run comes before its start. -/
theorem now_le (hposs : Run.Guarded (step hz) Possible s acts) {e : Nat × Act}
    (he : e ∈ acts) : s.now ≤ e.1 := by
  induction acts generalizing s with
  | nil => cases he
  | cons e' acts ih =>
    obtain ⟨hfirst, hrest⟩ := hposs
    rcases List.mem_cons.mp he with rfl | he
    · exact hfirst.1
    · have hle := ih hrest he
      rw [step_now] at hle
      exact hfirst.1.trans hle

/-- Every edge so far is in the past, and a pending timer expires no earlier than the delay
    behind it. -/
theorem run_armed (hposs : Run.Guarded (step hz) Possible (TimedSys.init gpio) acts)
    {t : Nat} {i : Fin 4} {level : Int} (hedge : (t, .edge i level) ∈ acts) :
    t ≤ (run hz gpio acts).now ∧ ∀ x ∈ (run hz gpio acts).expires, t + delay hz ≤ x := by
  induction acts using List.reverseRecOn with
  | nil => cases hedge
  | append_singleton acts e ih =>
    obtain ⟨hpre, hlast, -⟩ := Run.guarded_append.mp hposs
    have hnow : (run hz gpio acts).now ≤ e.1 := hlast.1
    rw [run_append]
    simp only [List.foldl_cons, List.foldl_nil, step_now]
    -- an edge of before, or the act itself
    rcases List.mem_append.mp hedge with hold | hnew
    · obtain ⟨hpast, harmed⟩ := ih hpre hold
      refine ⟨hpast.trans hnow, ?_⟩
      obtain ⟨t', a⟩ := e
      cases a with
      | edge j level' =>
        -- the timer was armed anew
        intro x hx
        have hexp : t' + hz / 100 + 1 = x := Option.some.inj hx
        have hle : t ≤ t' := hpast.trans hnow
        rw [delay]
        omega
      | callback => exact fun x hx => nomatch hx
      | user u => exact harmed
    · rw [← List.mem_singleton.mp hnew]
      refine ⟨Nat.le_refl t, fun x hx => ?_⟩
      have hexp : t + hz / 100 + 1 = x := Option.some.inj hx
      rw [delay]
      omega

/-- A callback comes no earlier than the delay behind every edge before it. -/
theorem callback_quiet {pre post : List (Nat × Act)} {T : Nat}
    (hposs : Run.Guarded (step hz) Possible (TimedSys.init gpio)
      (pre ++ (T, .callback) :: post))
    {t : Nat} {i : Fin 4} {level : Int} (hedge : (t, .edge i level) ∈ pre) :
    t + delay hz ≤ T := by
  obtain ⟨hpre, ⟨-, x, hx, hle⟩, -⟩ := Run.guarded_append.mp hposs
  exact ((run_armed hpre hedge).2 x hx).trans hle

/-- Without an edge the timer fires at most once. -/
theorem countP_callback_le (hposs : Run.Guarded (step hz) Possible s acts)
    (hquiet : ∀ e ∈ acts, e.2.isEdge = false) :
    acts.countP (·.2.isCallback) ≤ s.expires.isSome.toNat := by
  induction acts generalizing s with
  | nil => exact Nat.zero_le _
  | cons e acts ih =>
    obtain ⟨hfirst, hrest⟩ := hposs
    have hle := ih hrest fun e' he' => hquiet e' (List.mem_cons_of_mem e he')
    have hnotEdge := hquiet e List.mem_cons_self
    obtain ⟨t, a⟩ := e
    rw [List.countP_cons]
    cases a with
    | edge i level => cases hnotEdge
    -- it takes the one pending expiry, and nothing arms the timer again
    | callback =>
      obtain ⟨-, x, hx, -⟩ := hfirst
      rw [show s.expires = some x from hx]
      exact Nat.succ_le_succ hle
    | user u => exact hle

/-! ### The keys -/

/-- A sample gives its key the level of the pin. -/
theorem sampleKey_pinsDesc (gpio : Gpio) (dev : KeyDev) (i j : Fin 4) :
    (KeyRead.sampleKey gpio dev j).pinsDesc i =
      if i = j then { dev.pinsDesc i with keyVal := pressed gpio (dev.pinsDesc i).pin }
      else dev.pinsDesc i := by
  simp only [KeyRead.sampleKey]
  split
  · next hij =>
    rw [hij]
    exact Function.update_self _ _ _
  · next hij => exact Function.update_of_ne hij _ _

/-- The loop samples each entry it comes to, from the pin the entry names. -/
theorem foldl_sampleKey (gpio : Gpio) (l : List (Fin 4)) (dev : KeyDev) (i : Fin 4) :
    (l.foldl (KeyRead.sampleKey gpio) dev).pinsDesc i =
      if i ∈ l then { dev.pinsDesc i with keyVal := pressed gpio (dev.pinsDesc i).pin }
      else dev.pinsDesc i := by
  induction l generalizing dev with
  | nil => simp
  | cons j l ih =>
    rw [List.foldl_cons, ih, sampleKey_pinsDesc]
    by_cases hij : i = j <;> by_cases hl : i ∈ l <;> simp [hij, hl]

/-- All keys get the levels of their pins. -/
theorem getAllKeyVal_pinsDesc (gpio : Gpio) (dev : KeyDev) (i : Fin 4) :
    (KeyRead.getAllKeyVal gpio dev).pinsDesc i =
      { dev.pinsDesc i with keyVal := pressed gpio (dev.pinsDesc i).pin } := by
  rw [KeyRead.getAllKeyVal, foldl_sampleKey, if_pos (List.mem_finRange i)]

/-- The pins of the table never change. -/
def Wired (dev : KeyDev) : Prop := ∀ i, (dev.pinsDesc i).pin = (KeyRead.pinsDesc i).pin

/-- What the process does leaves the table as it is. -/
theorem user_pinsDesc (sys : KeyRead.Sys) (u : UserStep) :
    (KeyRead.step sys (.user u)).dev.pinsDesc = sys.dev.pinsDesc := by
  cases u with
  | read count =>
    rw [KeyRead.step, KeyRead.userStep]
    split <;> rfl
  | next left =>
    rw [KeyRead.step, KeyRead.userStep, KeyRead.readStatement]
    cases sys.pc <;> rfl
  | poll => rfl

/-- Every callback leaves the pins of the table where they were. -/
theorem run_wired (hz : Nat) (gpio : Gpio) (acts : List (Nat × Act)) :
    Wired (run hz gpio acts).sys.dev := by
  induction acts using List.reverseRecOn with
  | nil => exact fun _ => rfl
  | append_singleton acts e ih =>
    intro i
    rw [run_append]
    obtain ⟨t, a⟩ := e
    cases a with
    | edge j level => exact ih i
    -- the callback writes `key_val` only
    | callback =>
      calc ((KeyRead.getAllKeyVal _ (run hz gpio acts).sys.dev).pinsDesc i).pin
          = ((run hz gpio acts).sys.dev.pinsDesc i).pin := by rw [getAllKeyVal_pinsDesc]
        _ = (KeyRead.pinsDesc i).pin := ih i
    | user u =>
      have hkept := user_pinsDesc (run hz gpio acts).sys u
      exact (congrArg (fun d => (d i).pin) hkept).trans (ih i)

/-- Without a callback the keys stay. -/
theorem foldl_pinsDesc (hquiet : ∀ e ∈ acts, e.2.isCallback = false) :
    (acts.foldl (step hz) s).sys.dev.pinsDesc = s.sys.dev.pinsDesc := by
  induction acts generalizing s with
  | nil => rfl
  | cons e acts ih =>
    rw [List.foldl_cons, ih fun e' he' => hquiet e' (List.mem_cons_of_mem e he')]
    have hnot := hquiet e List.mem_cons_self
    obtain ⟨t, a⟩ := e
    cases a with
    | edge j level => rfl
    | callback => cases hnot
    | user u => exact user_pinsDesc s.sys u

/-- `my_key_read` moves bit 0 of each key to the index of the key. -/
theorem getLsbD_composeKeyVal {dev : KeyDev} {p : Fin 4 → Bool}
    (hkeys : ∀ i, (dev.pinsDesc i).keyVal = if p i then 1 else 0) (k : Nat) :
    (composeKeyVal dev).getLsbD k = if hk : k < 4 then p ⟨k, hk⟩ else false := by
  have hbit : ∀ i k, (if p i then 1 else 0 : BitVec 32).getLsbD k = (decide (k = 0) && p i) := by
    intro i k
    cases p i <;> simp
  rw [composeKeyVal]
  simp only [hkeys, BitVec.getLsbD_or, BitVec.getLsbD_shiftLeft, hbit]
  match k with
  | 0 => simp
  | 1 => simp
  | 2 => simp
  | 3 => simp
  | k + 4 => simp

/-- Bit `i` of a value is set iff the pin of key `i` is low. -/
def LevelVector (gpio : Gpio) (value : BitVec 32) : Prop :=
  (∀ i : Fin 4, value.getLsbD i = decide (gpio (KeyRead.pinsDesc i).pin = 0)) ∧
    ∀ k ≥ 4, value.getLsbD k = false

/-- The layout of `my_key_read`, for keys that were all sampled at one time. -/
theorem composeKeyVal_sampled {dev : KeyDev} {gpio : Gpio}
    (hkeys : ∀ i, (dev.pinsDesc i).keyVal = pressed gpio (KeyRead.pinsDesc i).pin) :
    LevelVector gpio (composeKeyVal dev) := by
  have hlow : ∀ i, (dev.pinsDesc i).keyVal =
      if decide (gpio (KeyRead.pinsDesc i).pin = 0) then 1 else 0 := by
    simpa [pressed] using hkeys
  have hbit := getLsbD_composeKeyVal hlow
  constructor
  · intro i
    rw [hbit, dif_pos i.isLt]
  · intro k hk
    rw [hbit, dif_neg (by omega)]

/-- The keys behind a callback and up to the next one. -/
theorem keys_published (pre mid : List (Nat × Act)) (T : Nat)
    (hquiet : ∀ e ∈ mid, e.2.isCallback = false) :
    LevelVector (run hz gpio pre).gpio
      (composeKeyVal (run hz gpio (pre ++ (T, .callback) :: mid)).sys.dev) := by
  apply composeKeyVal_sampled
  intro i
  rw [run_append, List.foldl_cons, foldl_pinsDesc hquiet]
  calc ((KeyRead.getAllKeyVal (run hz gpio pre).gpio (run hz gpio pre).sys.dev).pinsDesc i).keyVal
      = pressed (run hz gpio pre).gpio ((run hz gpio pre).sys.dev.pinsDesc i).pin := by
        rw [getAllKeyVal_pinsDesc]
    _ = pressed (run hz gpio pre).gpio (KeyRead.pinsDesc i).pin := by rw [run_wired hz gpio pre i]

/-! ### Timed runs -/

/-- The law of a timed run: a callback finds no edge within the delay before it, so that
    none runs between two edges less than the delay apart, at most one runs between two
    consecutive edges, and until the next one `my_key_read` composes the levels of all the
    pins at the time of the callback. -/
structure Debounced (hz : Nat) (gpio : Gpio) (acts : List (Nat × Act)) : Prop where
  quiet : ∀ T t i level, (T, .callback) ∈ acts → (t, .edge i level) ∈ acts →
    ¬ (T < t + delay hz ∧ t < T)
  apart : ∀ pre mid post t i level t' i' level',
    acts = pre ++ (t, .edge i level) :: (mid ++ (t', .edge i' level') :: post) →
    t' < t + delay hz → ∀ e ∈ mid, e.2.isCallback = false
  once : ∀ pre mid post t i level t' i' level',
    acts = pre ++ (t, .edge i level) :: (mid ++ (t', .edge i' level') :: post) →
    (∀ e ∈ mid, e.2.isEdge = false) → mid.countP (·.2.isCallback) ≤ 1
  published : ∀ pre T mid t count post,
    acts = pre ++ (T, .callback) :: (mid ++ (t, .user (.read count)) :: post) →
    (∀ e ∈ mid, e.2.isCallback = false) →
    let s := run hz gpio (pre ++ (T, .callback) :: mid)
    s.sys.pc = .idle → ∃ value, LevelVector (run hz gpio pre).gpio value ∧
      (step hz s (t, .user (.read count))).sys.pc = .composed value count

/-- For every `HZ`, all levels at the start and every possible timed run of edges, callbacks
    and reads. -/
theorem debounced (hz : Nat) (gpio : Gpio) (acts : List (Nat × Act))
    (hposs : Run.Guarded (step hz) Possible (TimedSys.init gpio) acts) :
    Debounced hz gpio acts where
  quiet := by
    intro T t i level hcall hedge ⟨hclose, hbefore⟩
    obtain ⟨pre, post, heq⟩ := List.append_of_mem hcall
    rw [heq] at hposs hedge
    rcases List.mem_append.mp hedge with hpre | hpost
    · have hle := callback_quiet hposs hpre
      omega
    · -- behind the callback it is too late
      rcases List.mem_cons.mp hpost with hsame | hpost
      · cases hsame
      · have hle := now_le (Run.guarded_append.mp hposs).2.2 hpost
        rw [step_now] at hle
        exact absurd hle (Nat.not_le.mpr hbefore)
  apart := by
    intro pre mid post t i level t' i' level' heq hclose e he
    by_contra hcall
    obtain ⟨T, a⟩ := e
    cases a with
    | edge j l => exact hcall rfl
    | user u => exact hcall rfl
    | callback =>
      obtain ⟨mid₁, mid₂, hmid⟩ := List.append_of_mem he
      have hsplit : acts = (pre ++ (t, .edge i level) :: mid₁) ++
          (T, .callback) :: (mid₂ ++ (t', .edge i' level') :: post) := by
        rw [heq, hmid]
        simp
      rw [hsplit] at hposs
      have hle := callback_quiet hposs (List.mem_append_right pre List.mem_cons_self)
      have hlast := now_le (Run.guarded_append.mp hposs).2.2
        (List.mem_append_right mid₂ List.mem_cons_self)
      rw [step_now] at hlast
      simp only at hlast
      omega
  once := by
    intro pre mid post t i level t' i' level' heq hquiet
    rw [heq] at hposs
    have hmid := (Run.guarded_append.mp (Run.guarded_append.mp hposs).2.2).1
    exact (countP_callback_le hmid hquiet).trans (Bool.toNat_le _)
  published := by
    intro pre T mid t count post _ hquiet s hidle
    refine ⟨composeKeyVal s.sys.dev, keys_published pre mid T hquiet, ?_⟩
    exact congrArg KeyRead.Sys.pc (if_pos hidle)

/-- A key that bounces once, with a tick of 10 ms: one callback, 2 jiffies behind the last
    of the three edges. -/
theorem debounced_bounce :
    Debounced 100 (fun _ => 1)
      [(0, .callback), (1, .edge 0 0), (2, .edge 0 1), (3, .edge 0 0), (5, .callback),
        (6, .user (.read 4))] :=
  debounced 100 (fun _ => 1) _
    (by simp [Run.Guarded, Possible, step, buttonsIrq, modTimer, TimedSys.init])

end KeyJiffer
