import Kaya.Phase2.ClockInterrupt
import Kaya.Phase2.Descent

open Links Exec

namespace Kaya

variable {M : Machine} {q : Queues} {d : Data} {c c' : Config} {e : Entry} {n : Nucleus}
  {next : Next}

/-- The scheduler never ends in a loop. -/
theorem Nucleus.finish_stops (havoids : next.Avoids .spin) : (next.finish n).1 ≠ .spin := by
  cases next with
  | stop x => exact havoids
  | sched resume =>
    simp only [Next.finish, Nucleus.schedule]
    cases n.queues.ready with
    | cons p rest => simp
    | nil =>
      simp only [Data.verdict]
      split_ifs <;> simp [havoids _]

/-- A clock interrupt, while somebody waits on a semaphore with a larger address than that
of the clock. -/
def Hangs (M : Machine) (c : Config) (e : Entry) : Prop :=
  e.exception = .INTERRUPT ∧ pendingLine e.state.s_cause = some 2 ∧
    ∃ a, clockSemaphore M < a ∧ c.kernel.heap.blockedOn a ≠ []

/-- The handler of such an interrupt is never left. -/
theorem Hangs.spin (hhangs : Hangs M c e) (hlive : c.Live M q) (n : Nat) :
    ∃ k, (kernelEntry M n e).run c.kernel = .error .spin k := by
  obtain ⟨hex, hline, a, ha, hwait⟩ := hhangs
  have harea : (e.enter c.kernel.data).old .INTPOLDAREA = e.state := by
    simp [Entry.enter, hex, Exception.area]
  have hlarger : ∃ b, clockSemaphore M < b ∧ q.waiting b ≠ [] :=
    ⟨a, ha, fun hnil => hwait ((hlive.represents.blockedOn_eq a).trans hnil)⟩
  rw [run_kernelEntry, hex]
  exact ioTrapHandler_spin hlive.represents (hlive.settled.congr rfl rfl) (harea ▸ hline) hlarger

/-- Everything else is answered. -/
theorem Config.Live.answers (hlive : c.Live M q) (hlegal : Legal M c e) (hnot : ¬ Hangs M c e) :
    ∃ c', (nucleus M).step c e c' := by
  rcases kernelEntry_spec hlive.represents hlive.settled hlegal with
    ⟨need, -, hdone⟩ | ⟨-, -, -, k, hk, -⟩ | ⟨hex, hline, ⟨a, ha, hwait⟩, -⟩
  · obtain ⟨n, next, hhandles, h', hends, -⟩ := hdone need (Nat.le_refl _)
    have hstops : (next.finish n).1 ≠ .spin := Nucleus.finish_stops (hhandles.avoids (.inr rfl))
    exact ⟨⟨(next.finish n).1, ⟨h', (next.finish n).2.data⟩⟩, hlegal, need, hends, hstops⟩
  · exact ⟨⟨.trap, k⟩, hlegal, 0, hk 0, by simp⟩
  · have hblocked : c.kernel.heap.blockedOn a ≠ [] := by
      rwa [hlive.represents.blockedOn_eq a]
    exact absurd ⟨hex, hline, a, ha, hblocked⟩ hnot

/-- Nobody waits at the start. -/
theorem not_hangs_init (hinit : (nucleus M).init c) : ¬ Hangs M c e := by
  obtain ⟨-, hrep, -⟩ := nucleus_init hinit
  rintro ⟨-, -, a, -, hwait⟩
  exact hwait ((hrep.blockedOn_eq a).trans rfl)

end Kaya
