import Kaya.Phase2.Context
import Kaya.Phase2.SoftBlock

open Links Exec

namespace Kaya

/-- A part of a device that is operated on its own: the index of the register and the
offset that its semaphore has behind the one with this index. -/
abbrev Channel : Type := Nat × Nat

/-- The channel that a SYS8 waits for. -/
def Entry.channel (e : Entry) : Channel :=
  (DEVPERINT * ((e.state.s_reg s_a1).toNat - DEVNOSEM) + (e.state.s_reg s_a2).toNat,
    DEVPERINT * (e.state.s_reg s_a3).toNat)

/-- The channel that an interrupt on a device line acknowledges, and the status word
that its register contains then. -/
def acknowledging (line : Nat) : DataM (Channel × Word) := do
  let i := DEVPERINT * (line - DEVNOSEM) + (← getDeviceNumber line)
  let (status, offset) ← acknowledge line i
  return ((i, offset), status)

def acknowledged (c : Config) (e : Entry) : Option (Channel × Word) :=
  match e.exception, pendingLine e.state.s_cause with
  | .INTERRUPT, some line =>
    match (acknowledging line).run (e.enter c.kernel.data) with
    | .ok r _ => if DISKINT ≤ line then some r else none
    | .error _ _ => none
  | _, _ => none

/-- The status words that have been acknowledged on a channel, in order. -/
def statuses (channel : Channel) : List (Config × Entry) → List Word
  | [] => []
  | (c, e) :: l => statuses channel l ++
    ((acknowledged c e).filter (·.1 = channel)).toList.map Prod.snd

/-- The number of the operations that have been waited for on a channel. -/
def waits (channel : Channel) (l : List (Config × Entry)) : Nat :=
  l.countP fun t => t.2.calls WAITIO ∧ t.2.channel = channel

variable (M : Machine)

/-- After the SYS8 `e` in `c` and the events `l` the process `p` continues with `st`:
at once, or when it is dispatched with nothing given to it in between. -/
inductive Continues (p : Pid) (e : Entry) : List (Config × Entry) → Config → State → Prop where
  | passed {c' : Config} {ref : StateRef} {st : State} : ¬ e.blocks M → c'.stop = .LDST ref st →
      Continues p e [] c' st
  | woken {c₁ c' : Config} {e₁ : Entry} {l : List (Config × Entry)} {ref : StateRef} {st : State} :
      e.blocks M → (∀ t ∈ (c₁, e₁) :: l, given M t.1 t.2 p = none) → e₁.dispatched c' = some p →
      c'.stop = .LDST ref st → Continues p e ((c₁, e₁) :: l) c' st

/-- The state that a process continues with is the one of its SYS8, behind the call
and with the status of the operation: as many have been waited for before on the channel
as have been acknowledged before. -/
def Delivered (c : Config) (e : Entry) (l l' : List (Config × Entry)) (st : State) : Prop :=
  ∃ status, (statuses e.channel (l' ++ (c, e) :: l))[waits e.channel l]? = some status ∧
    st = (e.state.set .s_pc (e.state.s_pc + 4)).set (.s_reg s_v0) status

variable {M} {c c' : Config} {e : Entry} {l l' : List (Config × Entry)} {p : Pid} {st : State}
  {q : Queues} {d : Data} {n : Nucleus} {next : Next}

/-- A SYS8 that does not block returns to its caller, behind the call. -/
theorem Continues.state_passed (hc : (nucleus M).Reachable c) (hstep : (nucleus M).step c e c')
    (hcalls : e.calls WAITIO) (hcur : c.kernel.data.currentProcess = .to p)
    (hpass : ¬ e.blocks M) {ref : StateRef} (hstop : c'.stop = .LDST ref st) :
    st = e.state.set .s_pc (e.state.s_pc + 4) := by
  obtain ⟨q, hlive⟩ := Config.Live.of_legal hc hstep.1 (Or.inl (by simp [hcalls.1]))
  have hn : Nucleus.Settled M ⟨q, (e.enter c.kernel.data).advance⟩ := hlive.settled.congr rfl rfl
  have hwaits := Entry.waitsOn_io (M := M) (d := c.kernel.data) hcalls
  have hw : M.writable (ioSemaphore M (e.enter c.kernel.data).advance) = true := by
    obtain ⟨i, hi, heq⟩ := ((hstep.1.arguments hcalls.1 hcalls.2.1).onDevice
      (d := c.kernel.data) hcalls)
    rw [heq, Machine.semAdd_ofNat]
    exact M.sem_writable i hi
  have hpos : ¬ (e.mem (ioSemaphore M (e.enter c.kernel.data).advance) - 1).toInt < 0 :=
    fun hneg => hpass ⟨_, hwaits, hw, hneg⟩
  rcases step_spec hstep hlive.represents hlive.settled with
    ⟨n, next, hfollows⟩ | ⟨-, -, -, htrap, -⟩
  · have hact := hfollows.handles.serves hcalls (by decide) (by decide)
    have hafter := hfollows.stop
    generalize hnumber : WAITIO = number at hact
    cases hact with
    | io _ _ _ =>
      obtain ⟨-, rfl⟩ := Stop.LDST.inj (hstop.symm.trans hafter)
      exact Entry.advance_old hcalls.1
    | ioFault hfault => simp [hw] at hfault
    | ioBlock _ hv hneg _ => exact absurd (hv ▸ hneg) hpos
    | ioNobody _ _ _ hnull => exact absurd (hcur.symm.trans hnull) nofun
    | nobody hmem _ =>
      subst hnumber
      exact absurd hmem (by decide)
    | _ => exact absurd hnumber (by decide)
  · exact absurd (hstop.symm.trans htrap) nofun

theorem lastGiven_append (hnone : ∀ t ∈ l', given M t.1 t.2 p = none) :
    lastGiven M p (l' ++ l) = lastGiven M p l := by
  induction l' with
  | nil => rfl
  | cons t l' ih =>
    rw [List.cons_append, lastGiven, hnone t List.mem_cons_self,
      ih fun t' ht' => hnone t' (List.mem_cons_of_mem _ ht')]
    rfl

/-- A process continues with the state that it had behind its SYS8. -/
theorem Continues.state (htrace : (nucleus M).Trace (l' ++ (c, e) :: l) c')
    (hcalls : e.calls WAITIO) (hcur : c.kernel.data.currentProcess = .to p)
    (hcontinues : Continues M p e l' c' st) : st = e.state.set .s_pc (e.state.s_pc + 4) := by
  cases hcontinues with
  | passed hpass hstop =>
    cases htrace with
    | step hl hstep => exact state_passed ⟨_, hl⟩ hstep hcalls hcur hpass hstop
  | @woken c₁ _ e₁ l₁ _ _ hblocks hnone hdispatched hstop =>
    cases htrace with
    | step hl hstep =>
      have hgiven : given M c e p = some (some (e.state.set .s_pc (e.state.s_pc + 4))) := by
        unfold given
        rw [if_pos hcur, if_neg (by simp [hcalls.1]), if_pos hblocks]
      have hlast : lastGiven M p ((c₁, e₁) :: (l₁ ++ (c, e) :: l)) =
          some (some (e.state.set .s_pc (e.state.s_pc + 4))) := by
        rw [← List.cons_append, lastGiven_append hnone, lastGiven, hgiven]
        rfl
      obtain ⟨st', hst', hstop'⟩ := dispatched_lastGiven hl hstep hdispatched (by simp [hlast])
      obtain ⟨-, rfl⟩ := Stop.LDST.inj (hstop.symm.trans hstop')
      have hsame := hlast.symm.trans hst'
      simpa using hsame.symm

/-- The status of an operation reaches the process that waits for it if and only if it
had that word in `v0` anyway. -/
theorem delivered_iff (htrace : (nucleus M).Trace (l' ++ (c, e) :: l) c')
    (hcalls : e.calls WAITIO) (hcur : c.kernel.data.currentProcess = .to p)
    (hcontinues : Continues M p e l' c' st) : Delivered c e l l' st ↔
      (statuses e.channel (l' ++ (c, e) :: l))[waits e.channel l]? = some (e.state.s_reg s_v0) := by
  obtain rfl := hcontinues.state htrace hcalls hcur
  constructor
  · rintro ⟨status, hstatus, hstate⟩
    have hv0 : e.state.s_reg s_v0 = ((e.state.set .s_pc (e.state.s_pc + 4)).set (.s_reg s_v0)
        status).get (.s_reg s_v0) := congrArg (·.get (.s_reg s_v0)) hstate
    rw [State.get_set, if_pos rfl] at hv0
    exact hv0 ▸ hstatus
  · intro hstatus
    refine ⟨_, hstatus, State.ext_get fun f => ?_⟩
    rw [State.get_set (f := .s_reg s_v0)]
    split
    · rename_i hf
      subst hf
      rfl
    · rfl

/-- The first process waits for disk 0. -/
def diskWait : Config := smallBoot.calling 8 3 0 0

/-- Disk 0 has finished and is ready. -/
def diskDone : Entry := diskWait.interrupt LINETHREE 1 fun _ => ⟨1, 0, 0, 0⟩

def diskWoken : Config := diskWait.handle smallMachine 3 diskDone

theorem diskWoken_trace : (nucleus smallMachine).Trace
    ([(diskWait, diskDone)] ++ (smallBoot, smallBoot.call 8 3 0 0) :: []) diskWoken :=
  .step (.step (.init (boot_init smallMachine _ _))
    (step_call 8 3 0 0 (by decide +kernel) (by decide +kernel) (by decide +kernel)))
    (handle_step (.wait (by decide +kernel)) (by decide +kernel))

/-- The state that the first process is dispatched with. -/
theorem diskWoken_continues : ∃ st, Continues smallMachine firstPid (smallBoot.call 8 3 0 0)
    [(diskWait, diskDone)] diskWoken st := by
  have hloads : diskDone.dispatched diskWoken = some firstPid := by decide +kernel
  have hidle : diskWait.kernel.data.currentProcess = .null := by decide +kernel
  obtain ⟨st, hstop⟩ := Entry.stop_of_dispatched hloads
  have hgiven : given smallMachine diskWait diskDone firstPid = none :=
    given_idle (c := diskWait) hidle
  refine ⟨st, .woken (by decide +kernel) ?_ hloads hstop⟩
  rw [List.forall_mem_singleton]
  dsimp only
  exact hgiven

theorem delivered_iff_small : ∃ st, Delivered smallBoot (smallBoot.call 8 3 0 0) []
      [(diskWait, diskDone)] st ↔
    (statuses (0, 0) [(diskWait, diskDone), (smallBoot, smallBoot.call 8 3 0 0)])[0]? = some 0 := by
  obtain ⟨st, hcontinues⟩ := diskWoken_continues
  exact ⟨st, delivered_iff diskWoken_trace Config.call_calls (by decide +kernel) hcontinues⟩

/-- The disk was ready, but the process finds its old `v0`. -/
theorem not_always_delivered : ¬ ∀ (M : Machine) (l l' : List (Config × Entry)) (c c' : Config)
    (e : Entry) (p : Pid) (st : State), (nucleus M).Trace (l' ++ (c, e) :: l) c' →
    e.calls WAITIO → c.kernel.data.currentProcess = .to p → Continues M p e l' c' st →
    Delivered c e l l' st := by
  intro hall
  obtain ⟨st, hcontinues⟩ := diskWoken_continues
  obtain ⟨status, hstatus, hstate⟩ := hall smallMachine [] _ _ _ _ _ st diskWoken_trace
    Config.call_calls (by decide +kernel) hcontinues
  obtain rfl := hcontinues.state diskWoken_trace Config.call_calls (by decide +kernel)
  have hone : (statuses (smallBoot.call 8 3 0 0).channel
      ([(diskWait, diskDone)] ++ [(smallBoot, smallBoot.call 8 3 0 0)]))[0]? = some 1 := by
    decide +kernel
  obtain rfl : 1 = status := Option.some.inj (hone.symm.trans hstatus)
  have hv0 := congrArg (·.s_reg s_v0) hstate
  revert hv0
  decide +kernel

end Kaya
