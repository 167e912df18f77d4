import Carrier.Lib.Run
import Carrier.Session.Sdp

/-! The state of one ICE stream as `session/ice.c` drives it: states are posted to the worker's
queue and delivered later, except by a stop, which reports at once. -/
namespace Carrier.Session
open Carrier.Lib

namespace StreamState

def code : StreamState → ℕ
  | .raw => 0
  | .initialized => 1
  | .transportReady => 2
  | .connecting => 3
  | .connected => 4
  | .deactivated => 5
  | .closed => 6
  | .failed => 7

def terminal : StreamState → Bool
  | .deactivated | .closed | .failed => true
  | _ => false

/-- A stream may go from `a` to `b`. -/
def Before (a b : StreamState) : Prop := a.terminal = false ∧ a.code < b.code

instance (a b : StreamState) : Decidable (Before a b) := inferInstanceAs (Decidable (_ ∧ _))

theorem Before.trans {a b c : StreamState} (hab : Before a b) (hbc : Before b c) : Before a c :=
  ⟨hab.1, hab.2.trans hbc.2⟩

instance : IsTrans StreamState Before := ⟨fun _ _ _ => Before.trans⟩

@[simp] theorem before_initialized (a : StreamState) : a.Before .initialized ↔ a = .raw := by
  cases a <;> decide

@[simp] theorem before_transportReady (a : StreamState) :
    a.Before .transportReady ↔ a.code < transportReady.code := by
  cases a <;> decide

@[simp] theorem before_connecting (a : StreamState) :
    a.Before .connecting ↔ a.code < connecting.code := by
  cases a <;> decide

@[simp] theorem before_connected (a : StreamState) :
    a.Before .connected ↔ a.code < connected.code := by
  cases a <;> decide

@[simp] theorem before_deactivated (a : StreamState) :
    a.Before .deactivated ↔ a.code < deactivated.code := by
  cases a <;> decide

@[simp] theorem before_closed (a : StreamState) : a.Before .closed ↔ a.terminal = false := by
  cases a <;> decide

@[simp] theorem before_failed (a : StreamState) : a.Before .failed ↔ a.terminal = false := by
  cases a <;> decide

@[simp] theorem connected_before (a : StreamState) : connected.Before a ↔ a.terminal = true := by
  cases a <;> decide

theorem terminal_of_code_le {a : StreamState} (h : a.code ≤ connected.code) :
    a.terminal = false := by
  cases a <;> first | rfl | exact absurd h (by decide)

/-- Strictly increasing up to the first terminal state, and nothing after that one. -/
def Ordered (reported : List StreamState) : Prop := (raw :: reported).Pairwise Before

instance (reported : List StreamState) : Decidable (Ordered reported) :=
  inferInstanceAs (Decidable (List.Pairwise _ _))

end StreamState

/-- `IceStream` with its `IceHandler`, and the notifications in flight. The keep-alive timers are
numbered in the order of their creation. -/
structure IceStream where
  state : StreamState
  reliable : Bool
  hasSess : Bool
  stopping : Bool
  keepaliveTimer : Option ℕ
  scheduled : List ℕ
  created : ℕ
  queue : List StreamState
  reported : List StreamState
  deriving DecidableEq

namespace IceStream

def new (reliable : Bool) : IceStream where
  state := .raw
  reliable := reliable
  hasSess := false
  stopping := false
  keepaliveTimer := none
  scheduled := []
  created := 0
  queue := []
  reported := []

/-- `notify_state_changed`; without memory the notification is lost. -/
def notifyStateChanged (s : IceStream) (state : StreamState) (alloc : Bool) : IceStream :=
  if alloc then { s with queue := s.queue ++ [state] } else s

/-- `stream_base_on_state_chagned` -/
def streamBaseOnStateChanged (s : IceStream) (state : StreamState) : IceStream :=
  { s with state := state, reported := s.reported ++ [state] }

/-- The way up the pipeline. The reliable handler keeps `connected` to itself and connects the
pseudo-TCP socket; the other handlers pass every state on. -/
def onStateChanged (s : IceStream) (state : StreamState) : IceStream :=
  if s.reliable && state = .connected then s else s.streamBaseOnStateChanged state

def iceOnIoqueueRead (s : IceStream) : Option IceStream :=
  match s.queue with
  | [] => none
  | state :: queue => some (onStateChanged { s with queue := queue } state)

/-- `pj_ice_strans_op` -/
inductive IceOp where
  | init
  | negotiation
  | keepAlive
  deriving DecidableEq

def streamOnIceComplete (s : IceStream) (op : IceOp) (success alloc : Bool) : IceStream :=
  match op with
  | .init => s.notifyStateChanged (if success then .initialized else .failed) alloc
  | .negotiation => s.notifyStateChanged (if success then .connected else .failed) alloc
  | .keepAlive => s

inductive IcePktType where
  | shutdown
  | keepalive
  | data
  deriving DecidableEq

/-- `stream_on_rx_data` on a valid packet. Data goes up the pipeline. -/
def streamOnRxData (s : IceStream) (pkttype : IcePktType) (alloc : Bool) : IceStream :=
  if !s.hasSess then s
  else if s.state ≠ .connecting ∧ s.state ≠ .connected then s
  else
    match pkttype with
    | .shutdown => s.notifyStateChanged .closed alloc
    | .keepalive | .data => s

/-- `ice_stream_keepalive_callback` of timer `k`; the timer runs again unless it returns false. -/
def iceStreamKeepaliveCallback (s : IceStream) (k : ℕ) (timeout alloc : Bool) : Option IceStream :=
  if k ∉ s.scheduled then none
  else if s.state.code < StreamState.connected.code then some s
  else if StreamState.connected.code < s.state.code then
    some { s with scheduled := s.scheduled.erase k }
  else if timeout then
    some ({ s with scheduled := s.scheduled.erase k }.notifyStateChanged .closed alloc)
  else some s

/-- `ice_handler_prepare`, given the result of `pj_ice_strans_init_ice`. -/
def iceHandlerPrepare (s : IceStream) (initIce alloc : Bool) : Bool × IceStream :=
  if s.hasSess then (true, s)
  else if s.state ≠ .initialized then (false, s)
  else if initIce then (true, { s with hasSess := true }.notifyStateChanged .transportReady alloc)
  else (false, s.notifyStateChanged .failed alloc)

/-- `ice_handler_start`, given the results of the timer and of `pj_ice_strans_start_ice`, and whether
there is memory for the two notifications. -/
def iceHandlerStart (s : IceStream) (createTimer startIce alloc allocFailed : Bool) :
    Bool × IceStream :=
  if s.state ≠ .transportReady then (false, s)
  else if !createTimer then (false, s)
  else
    let s := { s with
      keepaliveTimer := some s.created
      scheduled := s.created :: s.scheduled
      created := s.created + 1 }
    let s := s.notifyStateChanged .connecting alloc
    if startIce then (true, s) else (false, s.notifyStateChanged .failed allocFailed)

/-- `ice_handler_stop`. Whether it gives back the reference that `ice_handler_init` took, and the
stream. -/
def iceHandlerStop (s : IceStream) (error : ℤ) : Bool × IceStream :=
  if s.stopping then (false, s)
  else
    let s := { s with stopping := true }
    let s :=
      if s.state.code ≤ StreamState.connected.code then
        s.onStateChanged (if error = 0 then .closed else .failed)
      else s
    (s.hasSess, { s with
      hasSess := false
      keepaliveTimer := none
      scheduled := s.keepaliveTimer.elim s.scheduled s.scheduled.erase })

/-- What happens to a stream: the worker delivers a notification, `pjnath` and the timers call
back, the session calls into the handler, and the pseudo-TCP socket opens. -/
inductive Event where
  | deliver
  | iceComplete (op : IceOp) (success alloc : Bool)
  | rxPacket (pkttype : IcePktType) (alloc : Bool)
  | keepalive (k : ℕ) (timeout alloc : Bool)
  | prepare (initIce alloc : Bool)
  | start (createTimer startIce alloc allocFailed : Bool)
  | fireDeactivated (alloc : Bool)
  | stop (error : ℤ)
  | pseudoTcpOpened
  deriving DecidableEq

def step (s : IceStream) : Event → Option IceStream
  | .deliver => s.iceOnIoqueueRead
  | .iceComplete op success alloc => some (s.streamOnIceComplete op success alloc)
  | .rxPacket pkttype alloc => some (s.streamOnRxData pkttype alloc)
  | .keepalive k timeout alloc => s.iceStreamKeepaliveCallback k timeout alloc
  | .prepare initIce alloc => some (s.iceHandlerPrepare initIce alloc).2
  | .start createTimer startIce alloc allocFailed =>
    some (s.iceHandlerStart createTimer startIce alloc allocFailed).2
  | .fireDeactivated alloc => some (s.notifyStateChanged .deactivated alloc)
  | .stop error => some (s.iceHandlerStop error).2
  | .pseudoTcpOpened => if s.reliable then some (s.streamBaseOnStateChanged .connected) else none

/-- Of the states that are delivered, those that get through the pipeline. -/
def heard (reliable : Bool) (states : List StreamState) : List StreamState :=
  if reliable then states.filter (· ≠ .connected) else states

def pending (s : IceStream) : List StreamState := heard s.reliable s.queue

def last (s : IceStream) : StreamState := s.pending.getLastD s.state

/-- The states that a step posts or reports come after all that are in flight: a state is posted
only behind a lower one, a terminal one is the last, and a stop finds nothing in flight. A state that
is lost needs nothing. -/
def KeepsOrder (s : IceStream) : Event → Prop
  | .deliver => True
  | .iceComplete .init success alloc =>
    alloc → if success then s.last = .raw else s.last.terminal = false
  | .iceComplete .negotiation success alloc =>
    alloc → if success then s.reliable ∨ s.last.code < StreamState.connected.code
      else s.last.terminal = false
  | .iceComplete .keepAlive _ _ => True
  | .rxPacket pkttype alloc =>
    alloc → pkttype = .shutdown → s.hasSess → s.state = .connecting ∨ s.state = .connected →
      s.last.terminal = false
  | .keepalive _ timeout alloc => alloc → timeout → s.state = .connected → s.last.terminal = false
  | .prepare initIce alloc =>
    alloc → s.hasSess = false → s.state = .initialized →
      if initIce then s.last.code < StreamState.transportReady.code else s.last.terminal = false
  | .start createTimer startIce alloc allocFailed =>
    s.state = .transportReady → createTimer →
      if alloc then s.last.code < StreamState.connecting.code
      else startIce = false → allocFailed → s.last.terminal = false
  | .fireDeactivated alloc => alloc → s.last.code < StreamState.deactivated.code
  | .stop _ =>
    s.stopping = false → s.state.code ≤ StreamState.connected.code → s.pending = []
  | .pseudoTcpOpened =>
    s.state.code < StreamState.connected.code ∧ ∀ p ∈ s.pending, p.terminal

instance (s : IceStream) : ∀ ev, Decidable (s.KeepsOrder ev)
  | .deliver => inferInstanceAs (Decidable True)
  | .iceComplete .init _ _ => inferInstanceAs (Decidable (_ → ite _ _ _))
  | .iceComplete .negotiation _ _ => inferInstanceAs (Decidable (_ → ite _ _ _))
  | .iceComplete .keepAlive _ _ => inferInstanceAs (Decidable True)
  | .rxPacket _ _ => inferInstanceAs (Decidable (_ → _))
  | .keepalive _ _ _ => inferInstanceAs (Decidable (_ → _))
  | .prepare _ _ => inferInstanceAs (Decidable (_ → _ → _ → ite _ _ _))
  | .start _ _ _ _ => inferInstanceAs (Decidable (_ → _ → ite _ _ _))
  | .fireDeactivated _ => inferInstanceAs (Decidable (_ → _))
  | .stop _ => inferInstanceAs (Decidable (_ → _))
  | .pseudoTcpOpened => inferInstanceAs (Decidable (_ ∧ _))

/-- What has been reported and what will be, from the first state on. -/
def history (s : IceStream) : List StreamState := (.raw :: s.reported) ++ s.pending

/-- The stream is in the state that was reported last. -/
def Current (s : IceStream) : Prop := (StreamState.raw :: s.reported).getLast? = some s.state

@[simp] theorem heard_append (reliable : Bool) (l m : List StreamState) :
    heard reliable (l ++ m) = heard reliable l ++ heard reliable m := by
  cases reliable <;> simp [heard]

theorem last_history {s : IceStream} (h : s.Current) : s.history.getLast? = some s.last := by
  unfold history last
  rw [List.getLast?_append, h]
  cases s.pending using List.reverseRec <;> simp

theorem pairwise_append_of_getLast? {R : StreamState → StreamState → Prop} [IsTrans _ R]
    {l m : List StreamState} {x : StreamState} (h : l.getLast? = some x) :
    (l ++ m).Pairwise R ↔ l.Pairwise R ∧ (x :: m).Pairwise R := by
  simp only [← List.isChain_iff_pairwise, List.isChain_append, h, List.isChain_cons,
    Option.mem_some_iff, forall_eq', and_comm (a := List.IsChain R m)]

theorem onStateChanged_of_ne {s : IceStream} {st : StreamState} (h : st ≠ .connected) :
    s.onStateChanged st = s.streamBaseOnStateChanged st := by
  simp [onStateChanged, h]

/-- A step that only posts `posts`. -/
structure Posts (s s' : IceStream) (posts : List StreamState) : Prop where
  reported : s'.reported = s.reported
  state : s'.state = s.state
  reliable : s'.reliable = s.reliable
  queue : s'.queue = s.queue ++ posts

/-- A step that reports `st` at once. -/
structure Reports (s s' : IceStream) (st : StreamState) : Prop where
  reported : s'.reported = s.reported ++ [st]
  state : s'.state = st
  reliable : s'.reliable = s.reliable
  queue : s'.queue = s.queue

theorem Posts.refl (s : IceStream) : Posts s s [] := ⟨rfl, rfl, rfl, (List.append_nil _).symm⟩

theorem Posts.trans {s s' s'' : IceStream} {posts posts' : List StreamState} (h : Posts s s' posts)
    (h' : Posts s' s'' posts') : Posts s s'' (posts ++ posts') where
  reported := h'.reported.trans h.reported
  state := h'.state.trans h.state
  reliable := h'.reliable.trans h.reliable
  queue := by rw [h'.queue, h.queue, List.append_assoc]

/-- What is posted of a state. -/
def posted (alloc : Bool) (st : StreamState) : List StreamState := if alloc then [st] else []

theorem posts_notifyStateChanged (s : IceStream) (st : StreamState) (alloc : Bool) :
    Posts s (s.notifyStateChanged st alloc) (posted alloc st) := by
  cases alloc with
  | true => exact ⟨rfl, rfl, rfl, rfl⟩
  | false => exact .refl s

/-- In order behind everything that is in flight. -/
def InOrder (s : IceStream) (posts : List StreamState) : Prop :=
  (s.last :: heard s.reliable posts).Pairwise StreamState.Before

@[simp] theorem inOrder_nil (s : IceStream) : s.InOrder [] := by
  cases h : s.reliable <;> simp [InOrder, heard, h]

theorem inOrder_singleton (s : IceStream) {st : StreamState} (h : st ≠ .connected) :
    s.InOrder [st] ↔ s.last.Before st := by
  cases hr : s.reliable <;> simp [InOrder, heard, hr, h]

theorem inOrder_connected (s : IceStream) :
    s.InOrder [.connected] ↔ s.reliable ∨ s.last.code < StreamState.connected.code := by
  cases hr : s.reliable <;> simp [InOrder, heard, hr]

theorem inOrder_posted (s : IceStream) (alloc : Bool) (st : StreamState) :
    s.InOrder (posted alloc st) ↔ (alloc → s.InOrder [st]) := by
  cases alloc <;> simp [posted]

theorem iceComplete_posts (s : IceStream) (op : IceOp) (success alloc : Bool) :
    ∃ posts, Posts s (s.streamOnIceComplete op success alloc) posts ∧
      (s.KeepsOrder (.iceComplete op success alloc) ↔ s.InOrder posts) := by
  cases op with
  | init =>
    refine ⟨_, posts_notifyStateChanged s _ alloc, ?_⟩
    cases success <;> simp [KeepsOrder, inOrder_posted, inOrder_singleton]
  | negotiation =>
    refine ⟨_, posts_notifyStateChanged s _ alloc, ?_⟩
    cases success <;> simp [KeepsOrder, inOrder_posted, inOrder_singleton, inOrder_connected]
  | keepAlive => exact ⟨[], .refl s, by simp [KeepsOrder]⟩

theorem rxPacket_posts (s : IceStream) (pkttype : IcePktType) (alloc : Bool) :
    ∃ posts, Posts s (s.streamOnRxData pkttype alloc) posts ∧
      (s.KeepsOrder (.rxPacket pkttype alloc) ↔ s.InOrder posts) := by
  unfold streamOnRxData KeepsOrder
  split_ifs with hsess hstate
  · exact ⟨[], .refl s, by simp_all⟩
  · exact ⟨[], .refl s, by simp_all⟩
  · have hstate' : s.state = .connecting ∨ s.state = .connected := by
      rwa [not_and_or, not_not, not_not] at hstate
    cases pkttype with
    | shutdown =>
      refine ⟨_, posts_notifyStateChanged s _ alloc, ?_⟩
      simp_all [inOrder_posted, inOrder_singleton]
    | keepalive => exact ⟨[], .refl s, by simp⟩
    | data => exact ⟨[], .refl s, by simp⟩

theorem keepalive_posts {s s' : IceStream} {k : ℕ} {timeout alloc : Bool}
    (h : s.iceStreamKeepaliveCallback k timeout alloc = some s') :
    ∃ posts, Posts s s' posts ∧ (s.KeepsOrder (.keepalive k timeout alloc) ↔ s.InOrder posts) := by
  unfold iceStreamKeepaliveCallback at h
  unfold KeepsOrder
  split_ifs at h with hk hlt hgt htimeout
  · cases h
    refine ⟨[], .refl s, iff_of_true ?_ (inOrder_nil s)⟩
    intro _ _ hstate
    rw [hstate] at hlt
    exact absurd hlt (lt_irrefl _)
  · cases h
    refine ⟨[], ⟨rfl, rfl, rfl, (List.append_nil _).symm⟩, iff_of_true ?_ (inOrder_nil s)⟩
    intro _ _ hstate
    rw [hstate] at hgt
    exact absurd hgt (lt_irrefl _)
  · cases h
    have hstate : s.state = .connected := by
      cases hs : s.state <;> simp_all [StreamState.code]
    have hpost := posts_notifyStateChanged { s with scheduled := s.scheduled.erase k } .closed alloc
    refine ⟨_, ⟨hpost.reported, hpost.state, hpost.reliable, hpost.queue⟩, ?_⟩
    simp [inOrder_posted, inOrder_singleton, hstate, htimeout]
  · cases h
    exact ⟨[], .refl s, by simp [htimeout]⟩

theorem prepare_posts (s : IceStream) (initIce alloc : Bool) :
    ∃ posts, Posts s (s.iceHandlerPrepare initIce alloc).2 posts ∧
      (s.KeepsOrder (.prepare initIce alloc) ↔ s.InOrder posts) := by
  unfold iceHandlerPrepare KeepsOrder
  split_ifs with hsess hstate hinit
  · exact ⟨[], .refl s, by simp [hsess]⟩
  · exact ⟨[], .refl s, by simp [hstate]⟩
  · have hpost := posts_notifyStateChanged { s with hasSess := true } .transportReady alloc
    refine ⟨_, ⟨hpost.reported, hpost.state, hpost.reliable, hpost.queue⟩, ?_⟩
    simp_all [inOrder_posted, inOrder_singleton]
  · refine ⟨_, posts_notifyStateChanged s _ alloc, ?_⟩
    simp_all [inOrder_posted, inOrder_singleton]

/-- The stream with the timer that a start creates. -/
def timed (s : IceStream) : IceStream :=
  { s with
    keepaliveTimer := some s.created
    scheduled := s.created :: s.scheduled
    created := s.created + 1 }

theorem start_posts (s : IceStream) (createTimer startIce alloc allocFailed : Bool) :
    ∃ posts, Posts s (s.iceHandlerStart createTimer startIce alloc allocFailed).2 posts ∧
      (s.KeepsOrder (.start createTimer startIce alloc allocFailed) ↔ s.InOrder posts) := by
  unfold iceHandlerStart KeepsOrder
  split_ifs with hstate htimer hstart
  · exact ⟨[], .refl s, by simp [hstate]⟩
  · exact ⟨[], .refl s, by simp_all⟩
  · have hpost := posts_notifyStateChanged (timed s) .connecting alloc
    refine ⟨_, ⟨hpost.reported, hpost.state, hpost.reliable, hpost.queue⟩, ?_⟩
    cases alloc <;> simp_all [inOrder_posted, inOrder_singleton]
  · have hpost := (posts_notifyStateChanged (timed s) .connecting alloc).trans
      (posts_notifyStateChanged _ .failed allocFailed)
    refine ⟨_, ⟨hpost.reported, hpost.state, hpost.reliable, hpost.queue⟩, ?_⟩
    have hboth : s.InOrder [.connecting, .failed] ↔ s.last.code < StreamState.connecting.code := by
      have hlast : s.InOrder [.connecting, .failed] ↔
          s.last.code < StreamState.connecting.code ∧ s.last.terminal = false := by
        cases hr : s.reliable <;> simp [InOrder, heard, hr, StreamState.terminal]
      have hlow (hlt : s.last.code < StreamState.connecting.code) : s.last.terminal = false :=
        StreamState.terminal_of_code_le (hlt.trans (by decide)).le
      rw [hlast, and_iff_left_of_imp hlow]
    cases alloc <;> cases allocFailed <;>
      simp_all [posted, inOrder_singleton]

/-- A stop that is not the first, or comes behind `connected`, changes no state. -/
theorem stop_cases (s : IceStream) (error : ℤ) :
    (s.KeepsOrder (.stop error) ∧ Posts s (s.iceHandlerStop error).2 []) ∨
      (s.KeepsOrder (.stop error) ↔ s.pending = []) ∧
        s.state.code ≤ StreamState.connected.code ∧
        Reports s (s.iceHandlerStop error).2 (if error = 0 then .closed else .failed) := by
  unfold iceHandlerStop KeepsOrder
  by_cases hstop : s.stopping
  · left
    exact ⟨by simp [hstop], by simpa [hstop] using Posts.refl s⟩
  by_cases hcode : s.state.code ≤ StreamState.connected.code
  · right
    refine ⟨by simp [hstop, hcode], hcode, ?_⟩
    have hne : (if error = 0 then StreamState.closed else .failed) ≠ .connected := by
      split_ifs <;> decide
    simp only [if_neg hstop, if_pos hcode, onStateChanged_of_ne hne]
    exact ⟨rfl, rfl, rfl, rfl⟩
  · left
    refine ⟨fun _ h => absurd h hcode, ?_⟩
    simp only [if_neg hstop, if_neg hcode]
    exact ⟨rfl, rfl, rfl, (List.append_nil _).symm⟩

theorem Posts.history {s s' : IceStream} {posts : List StreamState} (h : Posts s s' posts) :
    s'.history = s.history ++ heard s.reliable posts := by
  simp only [IceStream.history, pending, h.reported, h.reliable, h.queue, heard_append,
    List.append_assoc]

theorem Posts.ordered {s s' : IceStream} {posts : List StreamState} (h : Posts s s' posts)
    (hcur : s.Current) :
    s'.Current ∧ (s'.history.Pairwise StreamState.Before ↔
      s.history.Pairwise StreamState.Before ∧ s.InOrder posts) := by
  constructor
  · unfold Current
    rw [h.reported, h.state]
    exact hcur
  · rw [h.history]
    exact pairwise_append_of_getLast? (last_history hcur)

/-- A step that reports at once puts the state before everything that is in flight. -/
theorem Reports.ordered {s s' : IceStream} {st : StreamState} (h : Reports s s' st)
    (hcur : s.Current) :
    s'.Current ∧ (s'.history.Pairwise StreamState.Before ↔
      s.history.Pairwise StreamState.Before ∧
        s.state.Before st ∧ ∀ p ∈ s.pending, st.Before p) := by
  constructor
  · unfold Current
    rw [h.reported, h.state, ← List.cons_append, List.getLast?_concat]
  · have hhist : s'.history = (.raw :: s.reported) ++ st :: s.pending := by
      simp [IceStream.history, pending, h.reported, h.reliable, h.queue]
    rw [hhist, IceStream.history, pairwise_append_of_getLast? hcur, pairwise_append_of_getLast? hcur]
    simp only [List.pairwise_cons, List.mem_cons, forall_eq_or_imp]
    constructor
    · rintro ⟨hreported, ⟨hst, hpending⟩, hbehind, hrest⟩
      exact ⟨⟨hreported, hpending, hrest⟩, hst, hbehind⟩
    · rintro ⟨⟨hreported, hpending, hrest⟩, hst, hbehind⟩
      exact ⟨hreported, ⟨hst, hpending⟩, hbehind, hrest⟩

theorem deliver_history {s s' : IceStream} (h : s.iceOnIoqueueRead = some s') (hcur : s.Current) :
    s'.Current ∧ s'.history = s.history := by
  unfold iceOnIoqueueRead at h
  split at h
  · cases h
  · next st queue hqueue =>
    cases h
    unfold onStateChanged
    split_ifs with hheld
    · obtain ⟨hr, hst⟩ : s.reliable = true ∧ st = .connected := by simpa using hheld
      refine ⟨hcur, ?_⟩
      simp [history, pending, heard, hqueue, hr, hst]
    · constructor
      · exact List.getLast?_concat (l := .raw :: s.reported)
      · have hheard : heard s.reliable (st :: queue) = st :: heard s.reliable queue := by
          cases hr : s.reliable <;> simp_all [heard]
        simp [history, pending, streamBaseOnStateChanged, hqueue, hheard]

/-- One step keeps the history in order exactly where it keeps the order. -/
theorem step_ordered {s s' : IceStream} {ev : Event} (hcur : s.Current) (h : s.step ev = some s') :
    s'.Current ∧ (s'.history.Pairwise StreamState.Before ↔
      s.history.Pairwise StreamState.Before ∧ s.KeepsOrder ev) := by
  have hposts : (∃ posts, Posts s s' posts ∧ (s.KeepsOrder ev ↔ s.InOrder posts)) →
      s'.Current ∧ (s'.history.Pairwise StreamState.Before ↔
        s.history.Pairwise StreamState.Before ∧ s.KeepsOrder ev) := by
    rintro ⟨posts, hp, hkeeps⟩
    rw [hkeeps]
    exact hp.ordered hcur
  cases ev with
  | deliver =>
    obtain ⟨hcur', hhist⟩ := deliver_history h hcur
    rw [hhist]
    exact ⟨hcur', (and_iff_left trivial).symm⟩
  | iceComplete op success alloc =>
    cases h
    exact hposts (iceComplete_posts s op success alloc)
  | rxPacket pkttype alloc =>
    cases h
    exact hposts (rxPacket_posts s pkttype alloc)
  | keepalive k timeout alloc => exact hposts (keepalive_posts h)
  | prepare initIce alloc =>
    cases h
    exact hposts (prepare_posts s initIce alloc)
  | start createTimer startIce alloc allocFailed =>
    cases h
    exact hposts (start_posts s createTimer startIce alloc allocFailed)
  | fireDeactivated alloc =>
    cases h
    apply hposts
    exact ⟨_, posts_notifyStateChanged s _ alloc,
      by simp [KeepsOrder, inOrder_posted, inOrder_singleton]⟩
  | stop error =>
    cases h
    obtain ⟨hkeeps, hp⟩ | ⟨hkeeps, hcode, hrep⟩ := stop_cases s error
    · exact hposts ⟨[], hp, iff_of_true hkeeps (inOrder_nil s)⟩
    · rw [hkeeps]
      obtain ⟨hcur', hhist⟩ := hrep.ordered hcur
      refine ⟨hcur', hhist.trans (and_congr_right' ?_)⟩
      rw [List.eq_nil_iff_forall_not_mem]
      have hnonterm := StreamState.terminal_of_code_le hcode
      have hafter : ∀ p, ¬(if error = 0 then StreamState.closed else .failed).Before p := by
        intro p
        split_ifs <;> exact fun hb => absurd hb.1 (by decide)
      have hbefore : s.state.Before (if error = 0 then .closed else .failed) := by
        split_ifs <;> simpa using hnonterm
      simp only [hafter, hbefore, imp_false, true_and]
  | pseudoTcpOpened =>
    simp only [step] at h
    split_ifs at h with hr
    cases h
    have hrep : Reports s (s.streamBaseOnStateChanged .connected) .connected := ⟨rfl, rfl, rfl, rfl⟩
    obtain ⟨hcur', hhist⟩ := hrep.ordered hcur
    refine ⟨hcur', hhist.trans (and_congr_right' ?_)⟩
    rw [StreamState.before_connected]
    apply and_congr_right'
    simp only [StreamState.connected_before]

/-- In every run whose steps all keep the order the reports are in order, and where everything
posted has been delivered they are in order only then. -/
theorem reported_ordered_iff {reliable : Bool} {evs : List Event} {s : IceStream}
    (h : exec step (.new reliable) evs = some s) :
    (Along step KeepsOrder (.new reliable) evs → StreamState.Ordered s.reported) ∧
      (s.queue = [] → StreamState.Ordered s.reported →
        Along step KeepsOrder (.new reliable) evs) := by
  have hrun := exec_iff_along (fun _ _ _ => step_ordered) (by rfl : (new reliable).Current) h
  have hnew : (new reliable).history.Pairwise StreamState.Before := by
    cases reliable <;> decide
  rw [and_iff_right hnew] at hrun
  constructor
  · intro halong
    exact (hrun.mpr halong).sublist (List.sublist_append_left _ _)
  · intro hempty hordered
    apply hrun.mp
    have hpending : s.pending = [] := by
      rw [pending, hempty]
      cases s.reliable <;> rfl
    rw [history, hpending, List.append_nil]
    exact hordered

/-- A stream that is set up, connects, and is closed by the peer. -/
def closedByPeer : List Event :=
  [.iceComplete .init true true, .deliver, .prepare true true, .deliver, .start true true true true,
    .deliver, .iceComplete .negotiation true true, .deliver, .rxPacket .shutdown true, .deliver, .stop 0]

theorem closedByPeer_ordered : ∃ s, exec step (.new false) closedByPeer = some s ∧
    StreamState.Ordered s.reported ∧ Along step KeepsOrder (.new false) closedByPeer := by
  obtain ⟨s, hs, hqueue⟩ := Option.map_eq_some_iff.mp
    (show (exec step (.new false) closedByPeer).map queue = some [] by decide)
  have hordered := (reported_ordered_iff hs).1 (by decide)
  exact ⟨s, hs, hordered, (reported_ordered_iff hs).2 hqueue hordered⟩

/-- The completion of the initialisation is still in flight when the stream is stopped. -/
theorem stop_before_delivery_not_ordered :
    ∃ s, exec step (.new false) [.iceComplete .init true true, .stop 0, .deliver] = some s ∧
      s.reported = [.closed, .initialized] ∧ ¬StreamState.Ordered s.reported := by
  obtain ⟨s, hs, hreported⟩ := Option.map_eq_some_iff.mp
    (show (exec step (.new false) [.iceComplete .init true true, .stop 0, .deliver]).map reported =
      some [.closed, .initialized] by decide)
  refine ⟨s, hs, hreported, ?_⟩
  rw [hreported]
  decide

end IceStream

end Carrier.Session
