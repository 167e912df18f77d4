import Carrier.Lib.Bytes
import Carrier.Lib.Run

/-! The timers of `session/ice.c`, and the one in `session/reliable_handler.c` that drives the
retransmissions of a pseudo-TCP socket. Times are milliseconds of the monotonic clock, which is taken to
stand still in the course of a call. -/
namespace Carrier.Session
open Carrier.Lib

/-- `pj_time_val` -/
structure PjTimeVal where
  sec : ℕ
  msec : ℕ
  deriving DecidableEq

def PjTimeVal.ms (t : PjTimeVal) : ℕ := t.sec * 1000 + t.msec

/-- The delay `ice_worker_schedule_timer` computes. The difference goes through a `long`, but is kept
in an `unsigned long`. -/
def scheduleDelay (now next : ℕ) : PjTimeVal :=
  let interval := subSize next now
  ⟨interval / 1000, interval % 1000⟩

/-- A timer that is scheduled, and when it is due. The interval is an `unsigned long`. -/
structure PjTimer where
  interval : ℕ
  due : ℕ
  interval_lt : interval < 2 ^ 64
  deriving DecidableEq

def iceWorkerScheduleTimer (now : ℕ) (timer : PjTimer) (next : ℕ) : PjTimer :=
  { timer with due := now + (scheduleDelay now next).ms }

@[simp] theorem iceWorkerScheduleTimer_interval (now : ℕ) (timer : PjTimer) (next : ℕ) :
    (iceWorkerScheduleTimer now timer next).interval = timer.interval := by
  rw [iceWorkerScheduleTimer]

def iceWorkerCreateTimer (now interval : ℕ) (h : interval < 2 ^ 64) : PjTimer :=
  iceWorkerScheduleTimer now ⟨interval, 0, h⟩ ((now + interval) % 2 ^ 64)

def intMax : ℕ := 2 ^ 31 - 1

/-- The fields of `ReliableHandler` that concern the clock. -/
structure ReliableClock where
  lastClockTimeout : ℕ
  clock : Option PjTimer
  deriving DecidableEq

/-- What the socket says: it is closed; `pseudo_tcp_socket_get_next_clock` fails, or the socket has just
closed itself, and the handler is stopped; or the next clock. -/
inductive ClockAnswer where
  | closed
  | failed
  | next (timeout : ℕ)
  deriving DecidableEq

/-- The interval of a new timer: as a `long`, and never more than an `int`. -/
def clockInterval (now timeout : ℕ) : ℕ :=
  let interval := subSize timeout now
  if 2 ^ 63 ≤ interval ∨ intMax < interval then intMax else interval

theorem clockInterval_le (now timeout : ℕ) : clockInterval now timeout ≤ intMax := by
  unfold clockInterval
  dsimp only
  split_ifs <;> omega

theorem clockInterval_lt (now timeout : ℕ) : clockInterval now timeout < 2 ^ 64 :=
  (clockInterval_le now timeout).trans_lt (by decide)

def reliableHandlerAdjustClock (now : ℕ) (h : ReliableClock) : ClockAnswer → ReliableClock
  | .closed => h
  | .failed => { h with clock := none }
  | .next timeout =>
    if timeout ≠ h.lastClockTimeout then
      { lastClockTimeout := timeout
        clock := some (match h.clock with
          | some timer => iceWorkerScheduleTimer now timer timeout
          | none =>
            iceWorkerCreateTimer now (clockInterval now timeout) (clockInterval_lt now timeout)) }
    else h

/-- A call of `reliable_handler_adjust_clock` from a handler, or from the callback of the timer. -/
inductive ClockAct where
  | adjust (now : ℕ) (answer : ClockAnswer)
  | fire (now : ℕ) (answer : ClockAnswer)
  deriving DecidableEq

/-- The callback of the timer returns true, and `ice_timer_callback` schedules the timer once more. A
timer destroyed in the meantime only finds that out. -/
def clockStep (h : ReliableClock) : ClockAct → Option ReliableClock
  | .adjust now answer => some (reliableHandlerAdjustClock now h answer)
  | .fire now answer =>
    match h.clock with
    | none => none
    | some timer =>
      if now < timer.due then none
      else
        let h := reliableHandlerAdjustClock now h answer
        some { h with
          clock := h.clock.map (fun timer =>
            iceWorkerScheduleTimer now timer ((now + timer.interval) % 2 ^ 64)) }

/-- `reliable_handler_create` -/
def reliableClockCreate : ReliableClock := ⟨0, none⟩

def ReliableClock.FiresBy (h : ReliableClock) (deadline : ℕ) : Prop :=
  ∃ timer ∈ h.clock, timer.due ≤ deadline

theorem scheduleDelay_ms (now next : ℕ) : (scheduleDelay now next).ms = subSize next now := by
  unfold scheduleDelay PjTimeVal.ms
  dsimp only
  rw [Nat.mul_comm, Nat.div_add_mod]

theorem scheduleDelay_past {now next : ℕ} (hpast : next < now) (hnow : now < 2 ^ 64) :
    (scheduleDelay now next).ms = 2 ^ 64 - (now - next) := by
  rw [scheduleDelay_ms, subSize]
  omega

/-- The delay is the time left, exactly if the deadline has not passed. -/
theorem scheduleDelay_eq_iff {now next : ℕ} (hnow : now < 2 ^ 64) (hnext : next < 2 ^ 64) :
    (scheduleDelay now next).ms = next - now ↔ now ≤ next := by
  by_cases hle : now ≤ next
  · rw [scheduleDelay_ms, subSize_of_le hle hnext]
    exact iff_of_true rfl hle
  · rw [scheduleDelay_past (not_le.mp hle) hnow]
    omega

theorem schedule_interval (now : ℕ) {interval : ℕ} (h : interval < 2 ^ 64) :
    (scheduleDelay now ((now + interval) % 2 ^ 64)).ms = interval := by
  rw [scheduleDelay_ms, subSize]
  omega

theorem due_schedule_le_iff {now next : ℕ} (hnow : now < 2 ^ 64) (hnext : next < 2 ^ 64)
    (timer : PjTimer) :
    (iceWorkerScheduleTimer now timer next).due ≤ max now next ↔ now ≤ next := by
  unfold iceWorkerScheduleTimer
  dsimp only
  by_cases hle : now ≤ next
  · rw [(scheduleDelay_eq_iff hnow hnext).mpr hle]
    omega
  · rw [scheduleDelay_past (not_le.mp hle) hnow]
    omega

/-- A new timer is due in time for every deadline to come, however far away it is. -/
theorem due_create_le_iff {now next : ℕ} (hnow : now < 2 ^ 64) (hnext : next < 2 ^ 64) :
    (iceWorkerCreateTimer now (clockInterval now next) (clockInterval_lt now next)).due ≤
      max now next ↔ now ≤ next := by
  unfold iceWorkerCreateTimer iceWorkerScheduleTimer
  dsimp only
  rw [schedule_interval now (clockInterval_lt now next)]
  by_cases hle : now ≤ next
  · have hinterval : clockInterval now next ≤ next - now := by
      unfold clockInterval
      dsimp only
      rw [subSize_of_le hle hnext]
      split_ifs with hbig
      · unfold intMax at *
        omega
      · exact le_rfl
    omega
  · have hpos : 0 < clockInterval now next := by
      unfold clockInterval
      dsimp only
      split_ifs
      · decide
      · unfold subSize
        omega
    omega

/-- The timer is in time after a call in which the socket has told its next clock: outside of the
callback, it is scheduled for that time, and before it has come, unless it is scheduled for it since an
earlier call; inside the callback, the interval the timer was created with does not lead past it. -/
def InTime (h : ReliableClock) (next : ℕ) : ClockAct → Prop
  | .adjust now _ => if next = h.lastClockTimeout then h.FiresBy (max now next) else now ≤ next
  | .fire now _ => ∀ timer ∈ h.clock, now + timer.interval ≤ max now next

def ClockAct.now : ClockAct → ℕ
  | .adjust now _ => now
  | .fire now _ => now

def ClockAct.answer : ClockAct → ClockAnswer
  | .adjust _ answer => answer
  | .fire _ answer => answer

theorem adjust_firesBy_iff {h : ReliableClock} {now next : ℕ} (hnow : now < 2 ^ 64)
    (hnext : next < 2 ^ 64) :
    (reliableHandlerAdjustClock now h (.next next)).FiresBy (max now next) ↔
      if next = h.lastClockTimeout then h.FiresBy (max now next) else now ≤ next := by
  unfold reliableHandlerAdjustClock
  by_cases hsame : next = h.lastClockTimeout
  · rw [if_pos hsame]
    simp [hsame]
  · rw [if_neg hsame]
    simp only [hsame, ne_eq, not_false_eq_true, if_true, ReliableClock.FiresBy, Option.mem_def,
      Option.some.injEq, exists_eq_left']
    cases h.clock with
    | none => exact due_create_le_iff hnow hnext
    | some timer => exact due_schedule_le_iff hnow hnext timer

/-- The interval of the timer stays what it was created with. -/
theorem adjust_interval {h : ReliableClock} {timer : PjTimer} (hclock : h.clock = some timer)
    (now next : ℕ) : ∃ timer', (reliableHandlerAdjustClock now h (.next next)).clock = some timer' ∧
      timer'.interval = timer.interval := by
  unfold reliableHandlerAdjustClock
  dsimp only
  by_cases hsame : next = h.lastClockTimeout
  · rw [if_neg (not_not_intro hsame)]
    exact ⟨timer, hclock, rfl⟩
  · rw [if_pos hsame]
    dsimp only
    rw [hclock]
    exact ⟨iceWorkerScheduleTimer now timer next, rfl, iceWorkerScheduleTimer_interval now timer next⟩

theorem clockStep_firesBy_iff {h h' : ReliableClock} {act : ClockAct} {next : ℕ}
    (hstep : clockStep h act = some h') (hanswer : act.answer = .next next)
    (hnow : act.now < 2 ^ 64) (hnext : next < 2 ^ 64) :
    h'.FiresBy (max act.now next) ↔ InTime h next act := by
  cases act with
  | adjust now answer =>
    cases hanswer
    cases hstep
    exact adjust_firesBy_iff hnow hnext
  | fire now answer =>
    cases hanswer
    cases hclock : h.clock with
    | none => simp [clockStep, hclock] at hstep
    | some timer =>
      simp only [clockStep, hclock] at hstep
      split_ifs at hstep
      cases hstep
      obtain ⟨timer', hclock', hinterval⟩ := adjust_interval hclock now next
      simp only [ReliableClock.FiresBy, InTime, hclock', hclock, ClockAct.now, Option.map_some,
        Option.mem_def, Option.some.injEq, exists_eq_left', forall_eq', iceWorkerScheduleTimer]
      rw [schedule_interval now timer'.interval_lt, hinterval]

/-- Deadlines are met exactly where they have not passed, and where no earlier schedule stands. -/
theorem deadlines_iff {now next : ℕ} (hnow : now < 2 ^ 64) (hnext : next < 2 ^ 64) :
    ((scheduleDelay now next).ms = next - now ↔ now ≤ next) ∧
      ∀ h act h', clockStep h act = some h' → act.answer = .next next → act.now = now →
        (h'.FiresBy (max now next) ↔ InTime h next act) := by
  constructor
  · exact scheduleDelay_eq_iff hnow hnext
  · rintro h act h' hstep hanswer rfl
    exact clockStep_firesBy_iff hstep hanswer hnow hnext

/-- The first clock of a socket, a quarter of a second away. -/
theorem deadlines_met :
    (scheduleDelay 1000 1250).ms = 250 ∧
      ∃ h, clockStep reliableClockCreate (.adjust 1000 (.next 1250)) = some h ∧ h.FiresBy 1250 := by
  obtain ⟨hdelay, hfires⟩ := @deadlines_iff 1000 1250 (by decide) (by decide)
  have hintime : InTime reliableClockCreate 1250 (.adjust 1000 (.next 1250)) :=
    show 1000 ≤ 1250 by decide
  exact ⟨hdelay.mpr (by decide), _, rfl, (hfires reliableClockCreate _ _ rfl rfl rfl).mpr hintime⟩

/-- The socket moves its clock forward, and the handler comes to know one millisecond late. -/
theorem deadline_missed :
    (scheduleDelay 1100 1099).ms = 2 ^ 64 - 1 ∧
      ∃ h, exec clockStep reliableClockCreate
          [.adjust 1000 (.next 1250), .adjust 1100 (.next 1099)] = some h ∧
        h.lastClockTimeout = 1099 ∧ ¬h.FiresBy (max 1100 1099) := by
  refine ⟨rfl, _, rfl, rfl, ?_⟩
  rintro ⟨timer, htimer, hdue⟩
  cases htimer
  exact absurd hdue (by decide)

end Carrier.Session
