import Carrier.Session.ReliableClock
import Carrier.Session.TcpClock

/-! The clock of a reliable handler on a host that has been up for long: the sockets count the
milliseconds in 32 bits, the timers in 64. -/
namespace Carrier.Session
open Carrier.Lib PseudoTcpSocket

/-- The answer to a call comes from a socket that reads the same clock. -/
def ClockAct.Told (act : ClockAct) : Prop :=
  ∀ t, act.answer = .next t → ∃ E s timeout s', (∀ n, E.clock n = BitVec.ofNat 32 act.now) ∧
    getNextClock E s timeout = some (some t, s')

/-- A clock whose timer is not due before a time. -/
def ReliableClock.NotBefore (h : ReliableClock) (start : ℕ) : Prop :=
  ∀ timer ∈ h.clock, start + intMax ≤ timer.due

section Uptime

variable {start now t : ℕ} {h h' : ReliableClock} {act : ClockAct} {acts : List ClockAct}

/-- The range of the clock lies behind every timeout, which then seems to have passed. -/
theorem adjust_notBefore (h₀ : h.NotBefore start) (hstart : 2 ^ 32 ≤ start) (hnow : start ≤ now)
    (hrange : now < 2 ^ 63) (ht : t < 2 ^ 32) :
    (reliableHandlerAdjustClock now h (.next t)).NotBefore start := by
  have hpast : subSize t now = 2 ^ 64 - (now - t) := by
    unfold subSize
    omega
  unfold reliableHandlerAdjustClock
  dsimp only
  by_cases hsame : t = h.lastClockTimeout
  · rw [if_neg (not_not.mpr hsame)]
    exact h₀
  · rw [if_pos hsame]
    intro timer htimer
    obtain rfl := Option.some.inj htimer
    cases h.clock with
    | none =>
      have hinterval : clockInterval now t = intMax := by
        unfold clockInterval
        dsimp only
        rw [hpast, if_pos (.inl (by omega))]
      change start + intMax ≤ now + (scheduleDelay now ((now + clockInterval now t) % 2 ^ 64)).ms
      rw [schedule_interval now (clockInterval_lt now t), hinterval]
      omega
    | some timer =>
      change start + intMax ≤ now + (scheduleDelay now t).ms
      rw [scheduleDelay_ms, hpast]
      unfold intMax
      omega

/-- While no timer is due, all that happens are the calls of the handler. -/
theorem clockStep_notBefore (h₀ : h.NotBefore start) (hstart : 2 ^ 32 ≤ start)
    (hrange : start + intMax < 2 ^ 63) (hlow : start ≤ act.now) (hhigh : act.now < start + intMax)
    (htold : act.Told) (hstep : clockStep h act = some h') :
    (∃ now answer, act = .adjust now answer) ∧ h'.NotBefore start := by
  cases act with
  | adjust now answer =>
    refine ⟨⟨now, answer, rfl⟩, ?_⟩
    obtain rfl := Option.some.inj hstep
    cases answer with
    | closed => exact h₀
    | failed => exact fun timer htimer => nomatch htimer
    | next t =>
      obtain ⟨E, s, timeout, s', -, hnext⟩ := htold t rfl
      have ht := getNextClock_lt E s timeout _ hnext t rfl
      exact adjust_notBefore h₀ hstart hlow (hhigh.trans hrange) ht
  | fire now answer =>
    unfold clockStep at hstep
    dsimp only at hstep
    cases hclock : h.clock with
    | none =>
      rw [hclock] at hstep
      exact nomatch hstep
    | some timer =>
      have hdue := h₀ timer hclock
      have hearly : now < timer.due := lt_of_lt_of_le hhigh hdue
      rw [hclock] at hstep
      dsimp only at hstep
      rw [if_pos hearly] at hstep
      exact nomatch hstep

/-- Once the host has been up for 2^32 milliseconds, the clock of a new reliable handler does not fire
for `INT_MAX` milliseconds: whatever happens meanwhile, nothing is sent again. -/
theorem clock_stalls (hstart : 2 ^ 32 ≤ start) (hrange : start + intMax < 2 ^ 63)
    (hacts : ∀ act ∈ acts, start ≤ act.now ∧ act.now < start + intMax ∧ act.Told)
    (hrun : exec clockStep reliableClockCreate acts = some h') :
    (∀ act ∈ acts, ∃ now answer, act = .adjust now answer) ∧ h'.NotBefore start := by
  have hgeneral : ∀ h : ReliableClock, h.NotBefore start → exec clockStep h acts = some h' →
      (∀ act ∈ acts, ∃ now answer, act = .adjust now answer) ∧ h'.NotBefore start := by
    clear hrun
    induction acts with
    | nil =>
      intro h h₀ hrun
      obtain rfl := Option.some.inj hrun
      exact ⟨nofun, h₀⟩
    | cons act acts ih =>
      intro h h₀ hrun
      obtain ⟨h₁, hstep, hrest⟩ := exec_cons_eq_some.mp hrun
      obtain ⟨hlow, hhigh, htold⟩ := hacts act List.mem_cons_self
      obtain ⟨hfirst, h₁'⟩ := clockStep_notBefore h₀ hstart hrange hlow hhigh htold hstep
      obtain ⟨hothers, h₂⟩ := ih (fun act hact => hacts act (List.mem_cons_of_mem _ hact)) h₁ h₁' hrest
      refine ⟨fun x hx => ?_, h₂⟩
      obtain rfl | hx := List.mem_cons.mp hx
      · exact hfirst
      · exact hothers x hx
  exact hgeneral reliableClockCreate (fun timer htimer => nomatch htimer) hrun

/-- A socket that asks for its clock after four seconds, and gets it after twenty-four days. -/
theorem clock_stalls_first :
    (∀ act ∈ [ClockAct.adjust (2 ^ 32 + 1) (.next 4001)], ∃ now answer, act = .adjust now answer) ∧
      (reliableHandlerAdjustClock (2 ^ 32 + 1) reliableClockCreate (.next 4001)).NotBefore (2 ^ 32) := by
  have htold : (ClockAct.adjust (2 ^ 32 + 1) (.next 4001)).Told := by
    intro t ht
    obtain rfl := ClockAnswer.next.inj ht
    exact ⟨TcpLink.quiet 1, prepared, 0, { prepared with log.ticks := 1 }, fun _ => rfl, rfl⟩
  refine clock_stalls le_rfl (by decide) (fun act hact => ?_) rfl
  rw [List.mem_singleton.mp hact]
  exact ⟨by decide, by decide, htold⟩

end Uptime

end Carrier.Session
