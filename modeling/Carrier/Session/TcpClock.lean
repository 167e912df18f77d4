import Carrier.Session.TcpStrangers

/-! When a pseudo-TCP socket wants to be told of the time again, and that it need not be told before. -/
namespace Carrier.Session
open Carrier.Lib PseudoTcpSocket

/-- Neither closed nor about to close on its own. -/
def Lively (s : PseudoTcpSocket) : Prop :=
  s.state ≠ .closed ∧ s.state ≠ .timeWait ∧ s.state ≠ .lastAck

section Timeouts

variable {T t timeout : ℕ} {now later : BitVec 32} {E E' : TcpEnv} {s s' s'' : PseudoTcpSocket}

theorem earlier_le (timeout : ℕ) (isSet : Bool) (deadline : BitVec 32) :
    earlier timeout isSet deadline ≤ timeout := by
  unfold earlier
  split_ifs
  · exact min_le_left _ _
  · exact le_rfl

theorem earlier_le_deadline (timeout : ℕ) {isSet : Bool} (h : isSet = true) (deadline : BitVec 32) :
    earlier timeout isSet deadline ≤ deadline.toNat := by
  rw [earlier, if_pos h]
  exact min_le_right _ _

/-- The timeout is at most four seconds away, and no deadline of the socket comes before it. -/
theorem nextTimeout_le (s : PseudoTcpSocket) (now : BitVec 32) (timeout : ℕ) :
    s.nextTimeout now timeout ≤ (now + DEFAULT_TIMEOUT).toNat ∧
      (s.timing.tAck ≠ 0 → s.nextTimeout now timeout ≤ (s.timing.tAck + s.timing.ackDelay).toNat) ∧
      (s.timing.rtoBase ≠ 0 → s.nextTimeout now timeout ≤ (s.timing.rtoBase + s.timing.rxRto).toNat) ∧
      (s.outgoing.sndWnd = 0 → s.nextTimeout now timeout ≤ (s.outgoing.lastsend + s.timing.rxRto).toNat) := by
  unfold nextTimeout
  refine ⟨?_, fun htAck => ?_, fun hrto => ?_, fun hwnd => ?_⟩
  · calc _ ≤ _ := earlier_le _ _ _
      _ ≤ _ := earlier_le _ _ _
      _ ≤ _ := earlier_le _ _ _
      _ ≤ (now + DEFAULT_TIMEOUT).toNat := min_le_right _ _
  · calc _ ≤ _ := earlier_le _ _ _
      _ ≤ _ := earlier_le _ _ _
      _ ≤ (s.timing.tAck + s.timing.ackDelay).toNat := earlier_le_deadline _ (decide_eq_true htAck) _
  · calc _ ≤ _ := earlier_le _ _ _
      _ ≤ (s.timing.rtoBase + s.timing.rxRto).toNat := earlier_le_deadline _ (decide_eq_true hrto) _
  · exact earlier_le_deadline _ (decide_eq_true hwnd) _

/-- A deadline that lies less than half the range of the clock behind a time that has come has not
passed before it. -/
theorem not_passed {base delay : BitVec 32} (hbase : base.toNat ≤ now.toNat) (hdelay : delay.toNat < 2 ^ 31)
    (hbefore : now.toNat < (base + delay).toNat) : passed (base + delay) now = false := by
  unfold passed
  rw [timeDiff_eq, decide_eq_false_iff_not, not_le]
  have hdiff : (base + delay - now).toNat < 2 ^ 31 ∧ 0 < (base + delay - now).toNat := by bv_omega
  rw [BitVec.toInt_eq_toNat_of_lt (by omega)]
  omega

theorem clockTimers_idle (h : Limited T s) (hlate : T ≤ now.toNat)
    (hbefore : now.toNat < s.nextTimeout later timeout) : clockTimers E s now = some s := by
  obtain ⟨-, htAck, hrto, hwnd⟩ := nextTimeout_le s later timeout
  have hrange : s.timing.rxRto.toNat < 2 ^ 31 := h.rxRto.2.trans_lt (by decide)
  have hretransmit : s.clockRetransmit E now = some (true, s) := by
    refine if_neg (fun hexpired => ?_)
    have hpassed := not_passed (h.rtoBase.trans hlate) hrange (hbefore.trans_le (hrto hexpired.1))
    exact absurd hexpired.2 (by rw [hpassed]; decide)
  have hprobe : s.clockProbe E now = some (true, s) := by
    refine if_neg (fun hexpired => ?_)
    have hpassed := not_passed (h.lastsend.trans hlate) hrange (hbefore.trans_le (hwnd hexpired.1))
    exact absurd hexpired.2 (by rw [hpassed]; decide)
  have hack : s.clockAck E now = some s := by
    refine if_neg (fun hexpired => ?_)
    have hdelay : s.timing.ackDelay.toNat < 2 ^ 31 := by
      rw [h.ackDelay]
      decide
    have hpassed := not_passed (h.tAck.trans hlate) hdelay (hbefore.trans_le (htAck hexpired.1))
    exact absurd hexpired.2 (by rw [hpassed]; decide)
  unfold clockTimers
  rw [hretransmit, Option.bind_eq_bind, Option.bind_some]
  dsimp only
  rw [if_neg (not_not.mpr rfl), hprobe, Option.bind_some]
  exact hack

/-- What `pseudo_tcp_socket_get_next_clock` says of a socket that is not about to close. -/
theorem getNextClock_some (hwait : s.state ≠ .timeWait) (hclosed : s.state ≠ .closed)
    (hread : s.getCurrentTime E = (now, s')) (hstate : s'.state = s.state)
    (hnext : s.getNextClock E timeout = some (some t, s'')) :
    s'' = s' ∧ ∃ earlier, t = s'.nextTimeout now earlier := by
  have hnot {x : Option PseudoTcpSocket} : x.map ((none : Option ℕ), ·) ≠ some (some t, s'') := by
    intro heq
    obtain ⟨s₁, -, hs₁⟩ := Option.map_eq_some_iff.mp heq
    exact nomatch hs₁
  rw [← hstate] at hwait hclosed
  unfold getNextClock at hnext
  rw [hread] at hnext
  dsimp only at hnext
  by_cases hforceful : s'.shutdown = .forceful
  · rw [if_pos hforceful] at hnext
    exact absurd hnext hnot
  · rw [if_neg hforceful] at hnext
    by_cases hgraceful : s'.shutdown = .graceful ∧ (s'.state ≠ .established ∨
        s'.outgoing.sbuf.getBuffered = 0 ∧ s'.timing.tAck = 0)
    · rw [if_pos hgraceful] at hnext
      exact absurd hnext hnot
    · rw [if_neg hgraceful, if_neg (fun hdone => hclosed hdone.2),
        if_neg (fun hwaiting => hwait (of_decide_eq_true hwaiting).2), if_neg (fun hdone => hclosed hdone.1)] at hnext
      obtain ⟨ht, hs''⟩ := Prod.mk.inj (Option.some.inj hnext)
      exact ⟨hs''.symm, _, (Option.some.inj ht).symm⟩

/-- Before its timeout a socket has nothing to do about the clock. -/
theorem notifyClock_idle (h : Limited T s) (hwait : s.state ≠ .timeWait) (hlast : s.state ≠ .lastAck)
    (hlate : T ≤ (E.clock s.log.ticks).toNat)
    (hbefore : (E.clock s.log.ticks).toNat < s.nextTimeout now timeout) :
    s.notifyClock E = some { s with log.ticks := s.log.ticks + 1 } := by
  have hread : s.getCurrentTime E = (E.clock s.log.ticks, { s with log.ticks := s.log.ticks + 1 }) :=
    if_neg (not_not.mpr h.currentTime)
  unfold notifyClock
  rw [hread]
  generalize E.clock s.log.ticks = later at hlate hbefore ⊢
  have hidle : clockTimers E { s with log.ticks := s.log.ticks + 1 } later =
      some { s with log.ticks := s.log.ticks + 1 } := by
    have hlimited : Limited T { s with log.ticks := s.log.ticks + 1 } := { h with }
    exact clockTimers_idle hlimited hlate hbefore
  have hstates : clockStates E { s with log.ticks := s.log.ticks + 1 } =
      some { s with log.ticks := s.log.ticks + 1 } :=
    clockStates_idle (fun hdone => hwait hdone.2) (fun hdone => hlast hdone.2)
  dsimp only
  by_cases hclosed : s.state = .closed
  · rw [if_pos hclosed]
  · rw [if_neg hclosed, hstates]
    exact hidle

/-- A socket that has been told its next timeout misses nothing before it: until then its clock finds
nothing to do. The timeout is at most four seconds away. -/
theorem clock_idle {ts : List TcpTurn} (hs : exec turn prepared ts = some s)
    (hclock : ∀ t ∈ ts, ∀ n, (t.env.clock n).toNat ≤ T) (hlively : Lively s)
    (hnext : s.getNextClock E timeout = some (some t, s')) (hlate : T ≤ (E'.clock s'.log.ticks).toNat)
    (hbefore : (E'.clock s'.log.ticks).toNat < t) :
    t ≤ (E.clock s.log.ticks + DEFAULT_TIMEOUT).toNat ∧
      s'.notifyClock E' = some { s' with log.ticks := s'.log.ticks + 1 } := by
  have hlimited := (exec_onward (prepared_limited T) hclock hs).limited
  have hread : s.getCurrentTime E = (E.clock s.log.ticks, { s with log.ticks := s.log.ticks + 1 }) :=
    if_neg (not_not.mpr hlimited.currentTime)
  obtain ⟨rfl, earlier, rfl⟩ := getNextClock_some hlively.2.1 hlively.1 hread rfl hnext
  have hticked : Limited T { s with log.ticks := s.log.ticks + 1 } := { hlimited with }
  exact ⟨(nextTimeout_le _ _ _).1, notifyClock_idle hticked hlively.2.1 hlively.2.2 hlate hbefore⟩

/-- A socket that has data under way, shortly before they are sent again. -/
theorem clock_idle_met : ∃ s s', exec turn prepared met = some s ∧
    s.getNextClock (TcpLink.quiet 1) 0 = some (some 1001, s') ∧
      1001 ≤ ((1 : BitVec 32) + DEFAULT_TIMEOUT).toNat ∧
        s'.notifyClock (TcpLink.quiet 1000) = some { s' with log.ticks := s'.log.ticks + 1 } := by
  obtain ⟨s, hs, hfacts⟩ := (Option.any_eq_true ..).mp met_runs.1
  obtain ⟨-, -, -, -, hnext, hstate⟩ := of_decide_eq_true hfacts
  obtain ⟨⟨timeout, s'⟩, hnext, heq⟩ := (Option.any_eq_true ..).mp hnext
  obtain rfl := of_decide_eq_true heq
  have hlively : Lively s := by
    unfold Lively
    rw [hstate]
    exact ⟨nofun, nofun, nofun⟩
  have henv : met.map TcpTurn.env = List.replicate 5 (TcpLink.quiet 1) := rfl
  have hclock : ∀ t ∈ met, ∀ n, (t.env.clock n).toNat ≤ 1 := by
    intro t ht n
    have hmem : t.env ∈ met.map TcpTurn.env := List.mem_map_of_mem ht
    rw [henv] at hmem
    rw [List.eq_of_mem_replicate hmem]
    exact le_rfl
  have hlate : 1 ≤ ((TcpLink.quiet 1000).clock s'.log.ticks).toNat ∧
      ((TcpLink.quiet 1000).clock s'.log.ticks).toNat < 1001 := by
    change 1 ≤ (1000 : BitVec 32).toNat ∧ (1000 : BitVec 32).toNat < 1001
    decide
  exact ⟨s, s', hs, hnext, @clock_idle 1 1001 0 (TcpLink.quiet 1) (TcpLink.quiet 1000) s s' met hs hclock
    hlively hnext hlate.1 hlate.2⟩

theorem getNextClock_lt (E : TcpEnv) (s : PseudoTcpSocket) (timeout : ℕ) :
    Gives (fun r => ∀ t ∈ r.1, t < 2 ^ 32) (s.getNextClock E timeout) := by
  have hsum (a b : ℕ) (deadline : BitVec 32) (hb : b = min a deadline.toNat) : b < 2 ^ 32 := by
    rw [hb]
    exact (min_le_right _ _).trans_lt deadline.isLt
  have hdown (x : Option PseudoTcpSocket) :
      Gives (fun r : Option ℕ × PseudoTcpSocket => ∀ t ∈ r.1, t < 2 ^ 32) (x.map (none, ·)) :=
    Gives.map (P := fun _ => True) (fun _ _ => trivial) (fun _ _ t ht => nomatch ht)
  unfold getNextClock
  generalize s.getCurrentTime E = r
  obtain ⟨now, s₁⟩ := r
  dsimp only
  generalize (if timeout = 0 ∨ timeout < now.toNat then _ else timeout) = timeout'
  split_ifs
  · exact hdown _
  · exact hdown _
  · exact gives_some (fun t ht => nomatch ht)
  · exact gives_some (fun t ht => hsum _ _ _ (Option.some.inj ht).symm)
  · exact gives_some (fun t ht => hsum _ _ _ (Option.some.inj ht).symm)
  · refine gives_some (fun t ht => ?_)
    rw [← Option.some.inj ht]
    exact (nextTimeout_le _ _ _).1.trans_lt (now + DEFAULT_TIMEOUT).isLt

end Timeouts

end Carrier.Session
