import Carrier.Core.Invites

/-! Session requests in `session/session.c`: a request waits as an invite of the carrier, with the
session as the context of its callback. -/
namespace Carrier.Session
open Carrier.Lib Carrier.Common Carrier.Core

/-- The callbacks of invites: that of session requests, and those of applications. -/
inductive InviteCallback where
  | friendInviteResponse
  | app (callback : ℕ)
  deriving DecidableEq

inductive InviteContext where
  | session (ws : ℕ)
  | app (context : ℕ)
  deriving DecidableEq

/-- The part of an `IOEXSession` that requests use. A session without references is destroyed. -/
structure SessionState where
  nrefs : ℕ
  streams : ℕ
  completeCallback : Option ℕ
  context : ℕ

/-- A carrier with its sessions, which are addressed in the order of their creation. -/
structure SessionSystem where
  carrier : Inviter InviteCallback InviteContext
  sessions : List SessionState

/-- `IOEX_session_new`: its arguments, and what the carrier and the transport answer to it. -/
structure SessionNewCall where
  valid : Bool
  extension : Bool
  isFriend : Bool
  transport : Bool
  createSessionRc : ℤ
  streams : Bool
  turnServer : Except ℤ Unit
  createWorkerRc : ℤ
  initRc : ℤ

def SessionNewCall.check (call : SessionNewCall) : Except ℤ Unit :=
  if !call.valid then .error (intError .invalidArgs)
  else if !call.extension || !call.isFriend || !call.transport then .error (intError .notExist)
  else if call.createSessionRc ≠ 0 then .error call.createSessionRc
  else if !call.streams then .error (intError .outOfMemory)
  else
    match call.turnServer with
    | .error e => .error e
    | .ok () =>
      if call.createWorkerRc < 0 then .error call.createWorkerRc
      else if call.initRc < 0 then .error call.initRc
      else .ok ()

/-- `IOEX_session_new`. What was allocated before a failure is released again. -/
def sessionNew (s : SessionSystem) (call : SessionNewCall) : SessionSystem :=
  match call.check with
  | .error _ => s
  | .ok () => { s with sessions := s.sessions ++ [⟨1, 0, none, 0⟩] }

/-- `IOEX_session_request`: its arguments, and what the session and the carrier answer to it. -/
structure SessionRequestCall where
  callback : Option ℕ
  context : ℕ
  setOffer : Bool
  prepareRcs : List ℤ
  sdpRc : ℤ
  invite : InviteCall InviteCallback InviteContext

/-- The checks of `IOEX_session_request` before the invite: the callback, or the error. -/
def SessionRequestCall.check (call : SessionRequestCall) (ws : SessionState) : Except ℤ ℕ :=
  match call.callback with
  | none => .error (intError .invalidArgs)
  | some callback =>
    if ws.streams = 0 then .error (intError .wrongState)
    else if !call.setOffer then .error (intError .wrongState)
    else
      match call.prepareRcs.find? (· ≠ 0) with
      | some rc => .error rc
      | none => if call.sdpRc < 0 then .error call.sdpRc else .ok callback

def SessionRequestCall.inviteCall (call : SessionRequestCall) (ws : ℕ) :
    InviteCall InviteCallback InviteContext :=
  { call.invite with callback := .friendInviteResponse, context := .session ws }

def sessionRequest (s : SessionSystem) (ws : ℕ) (session : SessionState) (call : SessionRequestCall) :
    Option SessionSystem :=
  match call.check session with
  | .error _ => some s
  | .ok callback =>
    let session := { session with completeCallback := some callback, context := call.context }
    (inviteFriend s.carrier (call.inviteCall ws)).map (fun (w, _) => ⟨w, s.sessions.set ws session⟩)

/-- `IOEX_session_close` gives up the reference of the application. -/
def sessionClose (s : SessionSystem) (ws : ℕ) (session : SessionState) : SessionSystem :=
  { s with sessions := s.sessions.set ws { session with nrefs := session.nrefs - 1 } }

/-- The calls of an application, and the messages that arrive. -/
inductive SessionOp where
  | new (call : SessionNewCall)
  | addStream (ws : ℕ)
  | request (ws : ℕ) (call : SessionRequestCall)
  | close (ws : ℕ)
  | invite (call : InviteCall InviteCallback InviteContext)
  | response (friendNumber : BitVec 32) (known : Bool) (cp : InviteResponse)

/-- The session behind a handle of the application, which is not closed. -/
def SessionSystem.session? (s : SessionSystem) (ws : ℕ) : Option SessionState :=
  s.sessions[ws]?.filter (fun session => 0 < session.nrefs)

/-- One step. A call on a closed session is not admitted, and the callback of a request is no
application's. -/
def sessionStep (s : SessionSystem) : SessionOp → Option SessionSystem
  | .new call => some (sessionNew s call)
  | .addStream ws => (s.session? ws).map (fun session =>
    { s with sessions := s.sessions.set ws { session with streams := session.streams + 1 } })
  | .request ws call => (s.session? ws).bind (fun session => sessionRequest s ws session call)
  | .close ws => (s.session? ws).map (fun session => sessionClose s ws session)
  | .invite call =>
    if call.callback = .friendInviteResponse then none
    else (inviteFriend s.carrier call).map (fun (w, _) => { s with carrier := w })
  | .response friendNumber known cp =>
    (handleInviteResponse s.carrier friendNumber known cp).map (fun w => { s with carrier := w })

def SessionSystem.new (mem : Transactions) : SessionSystem := ⟨Inviter.new mem, []⟩

/-- A transaction waits in the table of the carrier. -/
def SessionSystem.Waits (s : SessionSystem)
    (callback : TransactedCallback InviteCallback InviteContext) : Prop :=
  ∃ tid t tcb, transactedCallbacksGet s.carrier.tcallbacks tid = some (t, some tcb) ∧
    s.carrier.heap[tcb]? = some callback

/-- Every waiting session request is that of a session that is not closed. -/
def SessionSystem.NoneClosed (s : SessionSystem) : Prop :=
  ∀ callback, s.Waits callback → callback.callbackFunc = .friendInviteResponse →
    ∃ ws session, callback.callbackContext = .session ws ∧ s.session? ws = some session

/-- A session is closed only when no request of it waits. -/
def SessionOp.Settled (s : SessionSystem) : SessionOp → Prop
  | .close ws => ∀ callback, s.Waits callback → callback.callbackFunc = .friendInviteResponse →
    callback.callbackContext ≠ .session ws
  | _ => True

section Waiting

variable {s s' : SessionSystem} {es es' : List (Entry (BitVec 64) ℕ ℕ)}
  {callback : TransactedCallback InviteCallback InviteContext}

theorem waits_iff (h : Stored s.carrier es) :
    s.Waits callback ↔ ∃ e ∈ es, s.carrier.heap[e.addr]? = some callback := by
  constructor
  · rintro ⟨tid, t, tcb, hget, hheap⟩
    obtain ⟨t', hlookup, -⟩ := transactedCallbacksGet_rep h.rep tid
    rw [hlookup, Option.some.injEq, Prod.mk.injEq] at hget
    obtain ⟨e, hfind, htcb⟩ := Option.map_eq_some_iff.mp hget.2
    have he := List.mem_of_find?_eq_some hfind
    rw [h.data e he] at htcb
    exact ⟨e, he, htcb ▸ hheap⟩
  · rintro ⟨e, he, hheap⟩
    have hfind := find?_of_mem (hasTid_one h.rep e.key) he (by simp [hasTid])
    obtain ⟨t', hlookup, -⟩ := transactedCallbacksGet_rep h.rep e.key
    rw [hfind, Option.map_some, h.data e he] at hlookup
    exact ⟨e.key, t', e.addr, hlookup, hheap⟩

/-- What waits after a call of the carrier has waited before, or was registered by it. -/
theorem waits_of_happens {op : InviteOp InviteCallback InviteContext} (h : Stored s.carrier es)
    (h' : Stored s'.carrier es') (hhappens : Happens s.carrier es op s'.carrier es')
    (hwaits : s'.Waits callback) :
    s.Waits callback ∨ ∃ call, op = .invite call ∧ callback = ⟨call.tid, call.callback, call.context⟩ := by
  rw [waits_iff h]
  rw [waits_iff h'] at hwaits
  obtain ⟨e, he, hheap⟩ := hwaits
  generalize s'.carrier = w' at hhappens hheap
  cases hhappens with
  | refused => exact .inl ⟨e, he, hheap⟩
  | @registered call =>
    rcases mem_of_mem_putEntry he with rfl | he
    · rw [List.getElem?_concat_length, Option.some.injEq] at hheap
      exact .inr ⟨call, rfl, hheap.symm⟩
    · rw [List.getElem?_append_left (h.addr_lt he)] at hheap
      exact .inl ⟨e, he, hheap⟩
  | dropped => exact .inl ⟨e, he, hheap⟩
  | answered => exact .inl ⟨e, mem_of_mem_removeEntry he, hheap⟩

end Waiting

section Step

variable {s s' : SessionSystem} {ws : ℕ} {session : SessionState}

theorem session?_eq_some : s.session? ws = some session ↔
    s.sessions[ws]? = some session ∧ 0 < session.nrefs := by
  unfold SessionSystem.session?
  rw [Option.filter_eq_some_iff]
  simp

/-- The session behind a handle is changed; the other handles are as before. -/
theorem session?_set_ne {w : Inviter InviteCallback InviteContext} {ws' : ℕ} (hne : ws' ≠ ws) :
    SessionSystem.session? ⟨w, s.sessions.set ws session⟩ ws' = s.session? ws' := by
  unfold SessionSystem.session?
  rw [List.getElem?_set_ne hne.symm]

theorem session?_set_self {w : Inviter InviteCallback InviteContext} {old : SessionState}
    (hold : s.session? ws = some old) (hpos : 0 < session.nrefs) :
    SessionSystem.session? ⟨w, s.sessions.set ws session⟩ ws = some session := by
  rw [session?_eq_some] at hold ⊢
  have hlt := (List.getElem?_eq_some_iff.mp hold.1).1
  exact ⟨List.getElem?_set_self hlt, hpos⟩

/-- The handles of `s` that are not closed are not closed in `s'`. -/
def SessionSystem.Keeps (s s' : SessionSystem) : Prop :=
  ∀ ws session, s.session? ws = some session → ∃ session', s'.session? ws = some session'

theorem keeps_set {w : Inviter InviteCallback InviteContext} {old : SessionState}
    (hold : s.session? ws = some old) (hpos : 0 < session.nrefs) :
    s.Keeps ⟨w, s.sessions.set ws session⟩ := by
  intro ws' x hx
  by_cases heq : ws' = ws
  · subst heq
    exact ⟨session, session?_set_self hold hpos⟩
  · exact ⟨x, (session?_set_ne heq).trans hx⟩

theorem keeps_new (call : SessionNewCall) : s.Keeps (sessionNew s call) := by
  intro ws session hws
  refine ⟨session, ?_⟩
  unfold sessionNew
  split
  · exact hws
  · rw [session?_eq_some] at hws ⊢
    refine ⟨?_, hws.2⟩
    rw [List.getElem?_append_left (List.getElem?_eq_some_iff.mp hws.1).1]
    exact hws.1

/-- Requests wait for sessions that are not closed, in a table that is well formed. -/
def SessionSystem.Sound (s : SessionSystem) : Prop := (∃ es, Stored s.carrier es) ∧ s.NoneClosed

/-- A step of the carrier, with what its new transactions are for. -/
theorem sound_carrier (op : InviteOp InviteCallback InviteContext) (h : s.Sound)
    (hstep : inviteStep s.carrier op = some s'.carrier) (hkeeps : s.Keeps s')
    (hnew : ∀ call, op = .invite call → call.callback = .friendInviteResponse →
      ∃ ws session, call.context = .session ws ∧ s'.session? ws = some session) : s'.Sound := by
  obtain ⟨⟨es, hstored⟩, hopen⟩ := h
  obtain ⟨es', hstored', hhappens⟩ := hstored.happens hstep
  refine ⟨⟨es', hstored'⟩, fun callback hwaits hfunc => ?_⟩
  rcases waits_of_happens hstored hstored' hhappens hwaits with hold | ⟨call, hop, rfl⟩
  · obtain ⟨ws, session, hctx, hws⟩ := hopen callback hold hfunc
    obtain ⟨session', hws'⟩ := hkeeps ws session hws
    exact ⟨ws, session', hctx, hws'⟩
  · exact hnew call hop hfunc

/-- A step that leaves the carrier as it is and closes no session that a request waits for. -/
theorem sound_sessions (h : s.Sound) (hcarrier : s'.carrier = s.carrier)
    (hkeeps : ∀ callback, s.Waits callback → callback.callbackFunc = .friendInviteResponse →
      ∀ ws session, callback.callbackContext = .session ws → s.session? ws = some session →
        ∃ session', s'.session? ws = some session') : s'.Sound := by
  obtain ⟨hstored, hopen⟩ := h
  rw [← hcarrier] at hstored
  refine ⟨hstored, fun callback hwaits hfunc => ?_⟩
  have hold : s.Waits callback := by
    unfold SessionSystem.Waits at hwaits
    rw [hcarrier] at hwaits
    exact hwaits
  obtain ⟨ws, session, hctx, hws⟩ := hopen callback hold hfunc
  obtain ⟨session', hws'⟩ := hkeeps callback hold hfunc ws session hctx hws
  exact ⟨ws, session', hctx, hws'⟩

theorem sound_request {call : SessionRequestCall} (h : s.Sound) (hws : s.session? ws = some session)
    (hstep : sessionRequest s ws session call = some s') : s'.Sound := by
  unfold sessionRequest at hstep
  cases hcheck : call.check session with
  | error e =>
    rw [hcheck] at hstep
    obtain rfl := Option.some.inj hstep
    exact h
  | ok callback =>
    rw [hcheck] at hstep
    obtain ⟨⟨w, result⟩, hinvite, rfl⟩ := Option.map_eq_some_iff.mp hstep
    have hpos := (session?_eq_some.mp hws).2
    refine sound_carrier (.invite (call.inviteCall ws)) h ?_ (keeps_set hws hpos) ?_
    · rw [inviteStep, hinvite]
      rfl
    · intro call' hop _
      obtain rfl := InviteOp.invite.inj hop
      exact ⟨ws, _, rfl, session?_set_self hws hpos⟩

theorem sessionStep_sound {op : SessionOp} (h : s.Sound) (hsettled : op.Settled s)
    (hstep : sessionStep s op = some s') : s'.Sound := by
  cases op with
  | new call =>
    obtain rfl := Option.some.inj hstep
    refine sound_sessions h ?_ (fun _ _ _ ws session _ hws => keeps_new call ws session hws)
    unfold sessionNew
    split <;> rfl
  | addStream ws =>
    obtain ⟨session, hws, rfl⟩ := Option.map_eq_some_iff.mp hstep
    have hpos : 0 < { session with streams := session.streams + 1 }.nrefs :=
      (session?_eq_some.mp hws).2
    exact sound_sessions h rfl (fun _ _ _ ws' x _ hx => keeps_set hws hpos ws' x hx)
  | request ws call =>
    obtain ⟨session, hws, hrequest⟩ := Option.bind_eq_some_iff.mp hstep
    exact sound_request h hws hrequest
  | close ws =>
    obtain ⟨session, hws, rfl⟩ := Option.map_eq_some_iff.mp hstep
    refine sound_sessions h rfl (fun callback hwaits hfunc ws' x hctx hx => ⟨x, ?_⟩)
    have hne : ws' ≠ ws := by
      rintro rfl
      exact hsettled callback hwaits hfunc hctx
    exact (session?_set_ne hne).trans hx
  | invite call =>
    rw [sessionStep] at hstep
    split at hstep
    · cases hstep
    · rename_i hother
      obtain ⟨⟨w, result⟩, hinvite, rfl⟩ := Option.map_eq_some_iff.mp hstep
      refine sound_carrier (.invite call) h ?_ (fun ws x hx => ⟨x, hx⟩) ?_
      · rw [inviteStep, hinvite]
        rfl
      · intro call' hop hfunc
        obtain rfl := InviteOp.invite.inj hop
        exact absurd hfunc hother
  | response friendNumber known cp =>
    obtain ⟨w, hresponse, rfl⟩ := Option.map_eq_some_iff.mp hstep
    refine sound_carrier (.response friendNumber known cp) h hresponse
      (fun ws x hx => ⟨x, hx⟩) ?_
    intro call hop
    cases hop

end Step

/-- In every run that closes sessions only without a waiting request, no request waits for a closed
session. -/
theorem sessions_noneClosed (mem : Transactions) {ops : List SessionOp} {s : SessionSystem}
    (hsettled : Along sessionStep (fun s op => op.Settled s) (SessionSystem.new mem) ops)
    (hexec : exec sessionStep (SessionSystem.new mem) ops = some s) : s.NoneClosed := by
  have hnew : (SessionSystem.new mem).Sound := by
    have hstored : Stored (SessionSystem.new mem).carrier [] := stored_new mem
    refine ⟨⟨[], hstored⟩, fun callback hwaits => ?_⟩
    obtain ⟨e, he, -⟩ := (waits_iff hstored).mp hwaits
    cases he
  have hsound : s.Sound :=
    exec_invariant_along (fun _ _ _ h hC hstep => sessionStep_sound h hC hstep) hnew hsettled hexec
  exact hsound.2

/-- A request of the session `ws` that passes every check. -/
def requestOf (ws : ℕ) (tid : BitVec 64) : SessionOp :=
  .request ws ⟨some 0, 0, true, [0], 1,
    ⟨true, true, some 1, true, true, tid, true, .app 0, .app 0, 0⟩⟩

def newSession : SessionOp := .new ⟨true, true, true, true, 0, true, .ok (), 0, 0⟩

/-- A session is closed without a request, and another one requests. -/
theorem sessions_noneClosed_second : ∃ s, exec sessionStep (SessionSystem.new zeroTransactions)
    [newSession, .close 0, newSession, .addStream 1, requestOf 1 7] = some s ∧ s.NoneClosed := by
  have hexec : ∃ s, exec sessionStep (SessionSystem.new zeroTransactions)
      [newSession, .close 0, newSession, .addStream 1, requestOf 1 7] = some s := ⟨_, rfl⟩
  obtain ⟨s, hs⟩ := hexec
  refine ⟨s, hs, sessions_noneClosed zeroTransactions ?_ hs⟩
  refine ⟨trivial, fun s₁ hs₁ => ⟨?_, ?_⟩⟩
  · obtain rfl := Option.some.inj hs₁
    intro callback hwaits
    obtain ⟨e, he, -⟩ := (waits_iff (stored_new zeroTransactions)).mp hwaits
    cases he
  · intro s₂ _
    exact ⟨trivial, fun _ _ => ⟨trivial, fun _ _ => ⟨trivial, fun _ _ => trivial⟩⟩⟩

/-- A session is closed while its request waits. -/
theorem not_sessions_noneClosed : ¬∀ (ops : List SessionOp) (s : SessionSystem),
    exec sessionStep (SessionSystem.new zeroTransactions) ops = some s → s.NoneClosed := by
  intro h
  have hrun := h [newSession, .addStream 0, requestOf 0 7, .close 0] _ rfl
  obtain ⟨ws, session, hctx, hopen⟩ := hrun ⟨7, .friendInviteResponse, .session 0⟩
    ⟨7, _, 0, rfl, rfl⟩ rfl
  obtain rfl := InviteContext.session.inj hctx
  cases hopen

end Carrier.Session
