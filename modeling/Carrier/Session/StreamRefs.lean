import Carrier.Common.IdsHeap
import Carrier.Session.StreamStates

/-! The references to the streams of a session and their ids: `session/session.c` and the hidden
reference that `ice_handler_init` takes. Calls are not interrupted by one another. -/
namespace Carrier.Session
open Carrier.Lib Carrier.Common

/-- A live stream with its reference count. -/
structure StreamObj where
  ice : IceStream
  refs : ℕ
  deriving DecidableEq

def maxStreamId : ℕ := 256

/-- The stream objects that have not been destroyed by id, the session's list, and the ids. -/
structure StreamTable where
  obj : ℕ → Option StreamObj
  list : List ℕ
  ids : IdsHeap

namespace StreamTable

def init : StreamTable := ⟨fun _ => none, [], idsHeapInit maxStreamId⟩

def put (t : StreamTable) (id : ℕ) (o : Option StreamObj) : StreamTable :=
  { t with obj := Function.update t.obj id o }

def listAdd (t : StreamTable) (id : ℕ) : StreamTable := { t with list := t.list ++ [id] }

/-- `list_remove_entry` -/
def listRemove (t : StreamTable) (id : ℕ) : StreamTable := { t with list := t.list.erase id }

/-- `ref` -/
def refStream (t : StreamTable) (id : ℕ) : StreamTable :=
  t.put id ((t.obj id).map (fun o => { o with refs := o.refs + 1 }))

/-- `deref`; the last one runs `stream_base_destroy`. -/
def derefStream (P : IntShift) (t : StreamTable) (id : ℕ) : StreamTable :=
  match t.obj id with
  | none => t
  | some o =>
    if o.refs = 1 then { t.put id none with ids := idsHeapFree P t.ids id }
    else t.put id (some { o with refs := o.refs - 1 })

/-- `pipeline.stop` of a stream. -/
def stopStream (P : IntShift) (t : StreamTable) (id : ℕ) (error : ℤ) : StreamTable :=
  match t.obj id with
  | none => t
  | some o =>
    let (drop, ice) := o.ice.iceHandlerStop error
    let t := t.put id (some { o with ice := ice })
    if drop then t.derefStream P id else t

/-- `IOEX_session_add_stream`, given whether the stream, the handlers above the ICE handler and the
ICE transport can be created. -/
def addStream (P : IntShift) (t : StreamTable) (reliable create handlers init : Bool) :
    Option ℕ × StreamTable :=
  if !create then (none, t)
  else
    let (ids, id) := idsHeapAlloc t.ids
    let t := { t with ids := ids }
    if id ≤ 0 then (none, t)
    else
      let id := id.toNat
      let t := t.put id (some ⟨.new reliable, 1⟩)
      if !handlers then (none, t.derefStream P id)
      else
        let t := (t.listAdd id).refStream id
        -- `ice_handler_init` takes its reference before it creates the transport
        let t := t.refStream id
        if !init then
          let t := t.derefStream P id
          let t := (t.listRemove id).derefStream P id
          (none, t.derefStream P id)
        else (some id, t.derefStream P id)

/-- `IOEX_session_remove_stream`: whether it returns 0. -/
def removeStream (P : IntShift) (t : StreamTable) (id : ℕ) : Bool × StreamTable :=
  if id ∉ t.list then (false, t)
  else
    let t := t.refStream id
    let t := t.stopStream P id 0
    let t := (t.listRemove id).derefStream P id
    (true, t.derefStream P id)

/-- The loop of `IOEX_session_request` and `IOEX_session_reply_request` over the streams, up to the
first that cannot be prepared. -/
def prepareStreams (initIce alloc : ℕ → Bool) : List ℕ → StreamTable → StreamTable
  | [], t => t
  | id :: rest, t =>
    match t.obj id with
    | none => t
    | some o =>
      let (ok, ice) := o.ice.iceHandlerPrepare (initIce id) (alloc id)
      let t := t.put id (some { o with ice := ice })
      if ok then prepareStreams initIce alloc rest t else t

/-- The loop of `IOEX_session_start` over the streams. -/
def startStreams (deactivate createTimer startIce alloc allocFailed : ℕ → Bool) :
    List ℕ → StreamTable → StreamTable
  | [], t => t
  | id :: rest, t =>
    match t.obj id with
    | none => t
    | some o =>
      let ice :=
        if deactivate id then o.ice.notifyStateChanged .deactivated (alloc id)
        else
          (o.ice.iceHandlerStart (createTimer id) (startIce id) (alloc id) (allocFailed id)).2
      startStreams deactivate createTimer startIce alloc allocFailed rest
        (t.put id (some { o with ice := ice }))

/-- The check of `IOEX_session_start` before the loop. -/
def allReady (t : StreamTable) : Bool :=
  t.list.all (fun id => (t.obj id).any (fun o => o.ice.state = .transportReady))

inductive Op where
  | add (reliable create handlers init : Bool)
  | prepare (initIce alloc : ℕ → Bool)
  | start (deactivate createTimer startIce alloc allocFailed : ℕ → Bool)
  | event (id : ℕ) (ev : IceStream.Event)
  | remove (id : ℕ)

/-- A state event of one stream; a stop gives back the reference of the ICE handler. -/
def streamEvent (P : IntShift) (t : StreamTable) (id : ℕ) (ev : IceStream.Event) :
    Option StreamTable :=
  match t.obj id with
  | none => none
  | some o =>
    match ev with
    | .stop error => some (t.stopStream P id error)
    | ev => (o.ice.step ev).map (fun ice => t.put id (some { o with ice := ice }))

def step (P : IntShift) (t : StreamTable) : Op → Option StreamTable
  | .add reliable create handlers init => some (t.addStream P reliable create handlers init).2
  | .prepare initIce alloc => some (prepareStreams initIce alloc t.list t)
  | .start deactivate createTimer startIce alloc allocFailed =>
    some (if t.allReady then
      startStreams deactivate createTimer startIce alloc allocFailed t.list t else t)
  | .event id ev => t.streamEvent P id ev
  | .remove id => some (t.removeStream P id).2

def allocated (t : StreamTable) : Finset ℕ :=
  (Finset.Icc 1 t.ids.maxIndex).filter t.ids.marked

/-- The live streams, the allocated ids and the streams in the list are the same. -/
structure Reclaimed (t : StreamTable) : Prop where
  live : ∀ id, (t.obj id).isSome ↔ id ∈ t.list
  free : ∀ id, t.ids.marked id ↔ id ∈ t.list
  card : t.allocated.card = t.list.length

/-- An id can be given back to the heap if its bit is in the lower half of its word. -/
def LowId (id : ℕ) : Prop := (id - 1) % 64 < 32

instance (id : ℕ) : Decidable (LowId id) := inferInstanceAs (Decidable (_ < _))

/-- A stream that is removed has been prepared, so that its first stop finds an ICE session, and
its id can be given back; so can the id of a stream that cannot be set up. -/
def GivesBack (t : StreamTable) : Op → Prop
  | .add _ create handlers init =>
    create → (handlers && init) = false → 0 < (idsHeapAlloc t.ids).2 →
      LowId (idsHeapAlloc t.ids).2.toNat
  | .remove id =>
    ∀ o ∈ t.obj id, (o.refs = 1 ∨ o.ice.stopping = false ∧ o.ice.hasSess) ∧ LowId id
  | _ => True

instance (t : StreamTable) : ∀ op, Decidable (t.GivesBack op)
  | .add _ _ _ _ => inferInstanceAs (Decidable (_ → _))
  | .remove _ => inferInstanceAs (Decidable (∀ _ ∈ _, _))
  | .prepare _ _ => inferInstanceAs (Decidable True)
  | .start _ _ _ _ _ => inferInstanceAs (Decidable True)
  | .event _ _ => inferInstanceAs (Decidable True)

/-- The invariant: besides, a stream has the references of the list and of the ICE handler, and the
second one is gone only after a stop. -/
structure Balanced (t : StreamTable) : Prop where
  heap : t.ids.WF
  nodup : t.list.Nodup
  live : ∀ id, (t.obj id).isSome ↔ id ∈ t.list
  free : ∀ id, t.ids.marked id ↔ id ∈ t.list
  refs : ∀ id o, t.obj id = some o → o.refs = 2 ∨ o.refs = 1 ∧ o.ice.stopping

@[simp] theorem put_obj_self (t : StreamTable) (id : ℕ) (o : Option StreamObj) :
    (t.put id o).obj id = o := Function.update_self ..

theorem put_obj (t : StreamTable) (id : ℕ) (o : Option StreamObj) (i : ℕ) :
    (t.put id o).obj i = if i = id then o else t.obj i := Function.update_apply ..

@[simp] theorem put_list (t : StreamTable) (id : ℕ) (o : Option StreamObj) :
    (t.put id o).list = t.list := rfl

@[simp] theorem put_ids (t : StreamTable) (id : ℕ) (o : Option StreamObj) :
    (t.put id o).ids = t.ids := rfl

@[simp] theorem put_put (t : StreamTable) (id : ℕ) (o o' : Option StreamObj) :
    (t.put id o).put id o' = t.put id o' := by
  unfold put
  rw [Function.update_idem]

@[simp] theorem put_listAdd (t : StreamTable) (id i : ℕ) (o : Option StreamObj) :
    (t.put id o).listAdd i = (t.listAdd i).put id o := rfl

@[simp] theorem put_listRemove (t : StreamTable) (id i : ℕ) (o : Option StreamObj) :
    (t.put id o).listRemove i = (t.listRemove i).put id o := rfl

@[simp] theorem refStream_put (t : StreamTable) (id : ℕ) (o : StreamObj) :
    (t.put id (some o)).refStream id = t.put id (some { o with refs := o.refs + 1 }) := by
  simp [refStream]

theorem refStream_eq {t : StreamTable} {id : ℕ} {o : StreamObj} (h : t.obj id = some o) :
    t.refStream id = t.put id (some { o with refs := o.refs + 1 }) := by
  rw [refStream, h, Option.map_some]

theorem derefStream_last (P : IntShift) (t : StreamTable) (id : ℕ) {o : StreamObj}
    (hrefs : o.refs = 1) :
    (t.put id (some o)).derefStream P id =
      { t.put id none with ids := idsHeapFree P t.ids id } := by
  simp only [derefStream, put_obj_self, if_pos hrefs, put_put, put_ids]

theorem derefStream_succ (P : IntShift) (t : StreamTable) (id : ℕ) {n : ℕ} {o : StreamObj}
    (hrefs : o.refs = n + 2) :
    (t.put id (some o)).derefStream P id = t.put id (some { o with refs := n + 1 }) := by
  simp only [derefStream, put_obj_self, hrefs, put_put]
  rfl

theorem onStateChanged_flags (s : IceStream) (state : StreamState) :
    (s.onStateChanged state).stopping = s.stopping ∧
      (s.onStateChanged state).hasSess = s.hasSess := by
  unfold IceStream.onStateChanged
  split_ifs <;> exact ⟨rfl, rfl⟩

/-- A stop drops the reference of the ICE handler if it is the first and finds an ICE session. -/
theorem iceHandlerStop_flags (s : IceStream) (error : ℤ) :
    (s.iceHandlerStop error).1 = (!s.stopping && s.hasSess) ∧
      (s.iceHandlerStop error).2.stopping = true := by
  unfold IceStream.iceHandlerStop
  cases hstop : s.stopping with
  | true => simp [hstop]
  | false =>
    by_cases hcode : s.state.code ≤ StreamState.connected.code
    · simp [hcode, onStateChanged_flags]
    · simp [hcode]

@[simp] theorem notifyStateChanged_stopping (s : IceStream) (state : StreamState) (alloc : Bool) :
    (s.notifyStateChanged state alloc).stopping = s.stopping := by
  cases alloc <;> rfl

theorem iceHandlerPrepare_stopping (s : IceStream) (initIce alloc : Bool) :
    (s.iceHandlerPrepare initIce alloc).2.stopping = s.stopping := by
  unfold IceStream.iceHandlerPrepare
  split_ifs <;> simp

theorem iceHandlerStart_stopping (s : IceStream) (createTimer startIce alloc allocFailed : Bool) :
    (s.iceHandlerStart createTimer startIce alloc allocFailed).2.stopping = s.stopping := by
  unfold IceStream.iceHandlerStart
  split_ifs <;> simp

theorem step_stopping {s s' : IceStream} {ev : IceStream.Event} (h : s.step ev = some s')
    (hstop : s.stopping = true) : s'.stopping = true := by
  cases ev with
  | deliver =>
    simp only [IceStream.step, IceStream.iceOnIoqueueRead] at h
    split at h
    · cases h
    · cases h
      rw [(onStateChanged_flags _ _).1]
      exact hstop
  | iceComplete op success alloc =>
    cases h
    cases op <;> simp [IceStream.streamOnIceComplete, hstop]
  | rxPacket pkttype alloc =>
    cases h
    unfold IceStream.streamOnRxData
    split_ifs
    · exact hstop
    · exact hstop
    · cases pkttype <;> simp [hstop]
  | keepalive k timeout alloc =>
    simp only [IceStream.step, IceStream.iceStreamKeepaliveCallback] at h
    split_ifs at h <;> cases h <;> simp [hstop]
  | prepare initIce alloc =>
    cases h
    rw [iceHandlerPrepare_stopping, hstop]
  | start createTimer startIce alloc allocFailed =>
    cases h
    rw [iceHandlerStart_stopping, hstop]
  | fireDeactivated alloc =>
    cases h
    rw [notifyStateChanged_stopping, hstop]
  | stop error =>
    cases h
    exact (iceHandlerStop_flags s error).2
  | pseudoTcpOpened =>
    simp only [IceStream.step] at h
    split_ifs at h
    cases h
    exact hstop

namespace Balanced

variable {P : IntShift} {t : StreamTable} {id : ℕ} {o : StreamObj}

theorem putObj (h : t.Balanced) (hobj : t.obj id = some o) {o' : StreamObj}
    (hrefs : o'.refs = 2 ∨ o'.refs = 1 ∧ o'.ice.stopping) : (t.put id (some o')).Balanced := by
  refine ⟨h.heap, h.nodup, fun i => ?_, h.free, fun i p hp => ?_⟩
  · rw [put_list, ← h.live, put_obj]
    split_ifs with hi
    · rw [hi, hobj]
      exact iff_of_true rfl rfl
    · rfl
  · rw [put_obj] at hp
    split_ifs at hp with hi
    · cases hp
      exact hrefs
    · exact h.refs i p hp

theorem putIce (h : t.Balanced) (hobj : t.obj id = some o) (ice : IceStream)
    (hstop : o.ice.stopping → ice.stopping) : (t.put id (some { o with ice := ice })).Balanced :=
  h.putObj hobj ((h.refs id o hobj).imp_right (And.imp_right hstop))

theorem prepareStreams (h : t.Balanced) (initIce alloc : ℕ → Bool) (ids : List ℕ) :
    (StreamTable.prepareStreams initIce alloc ids t).Balanced := by
  induction ids generalizing t with
  | nil => exact h
  | cons id ids ih =>
    rw [StreamTable.prepareStreams]
    cases hobj : t.obj id with
    | none => exact h
    | some o =>
      have hput := h.putIce hobj (o.ice.iceHandlerPrepare (initIce id) (alloc id)).2
        (iceHandlerPrepare_stopping o.ice _ _).trans
      dsimp only
      split_ifs
      · exact ih hput
      · exact hput

theorem startStreams (h : t.Balanced) (deactivate createTimer startIce alloc allocFailed : ℕ → Bool)
    (ids : List ℕ) :
    (StreamTable.startStreams deactivate createTimer startIce alloc allocFailed ids t).Balanced := by
  induction ids generalizing t with
  | nil => exact h
  | cons id ids ih =>
    rw [StreamTable.startStreams]
    cases hobj : t.obj id with
    | none => exact h
    | some o =>
      apply ih
      apply h.putIce hobj
      split_ifs
      · rw [notifyStateChanged_stopping]
        exact fun hstop => hstop
      · rw [iceHandlerStart_stopping]
        exact fun hstop => hstop

/-- A stop of a stream in the list drops at most the reference of the ICE handler. -/
theorem stopStream (h : t.Balanced) (hobj : t.obj id = some o) (error : ℤ) :
    (t.stopStream P id error).Balanced := by
  obtain ⟨hdrop, hstop⟩ := iceHandlerStop_flags o.ice error
  simp only [StreamTable.stopStream, hobj, hdrop]
  split_ifs with hboth
  · obtain hrefs | ⟨-, hstopped⟩ := h.refs id o hobj
    · rw [derefStream_succ P t id (o := ⟨(o.ice.iceHandlerStop error).2, o.refs⟩) hrefs]
      exact h.putObj hobj (.inr ⟨rfl, hstop⟩)
    · simp [hstopped] at hboth
  · exact h.putIce hobj _ (fun _ => hstop)

theorem destroy (h : t.Balanced) (hid : id ∈ t.list) (hlow : LowId id) :
    Balanced { t.put id none with list := t.list.erase id, ids := idsHeapFree P t.ids id } := by
  have hmem : ∀ i, i ∈ t.list.erase id ↔ i ∈ t.list ∧ i ≠ id := by
    intro i
    rw [h.nodup.mem_erase_iff, and_comm]
  refine ⟨(idsHeapFree_wf P h.heap id).1, h.nodup.erase id, fun i => ?_, fun i => ?_,
    fun i p hp => ?_⟩
  · rw [hmem, ← h.live]
    simp only [put_obj]
    split_ifs with hi <;> simp [hi]
  · rw [idsHeapFree_low P ((h.free id).mpr hid) hlow, h.free, hmem]
  · simp only [put_obj] at hp
    split_ifs at hp
    exact h.refs i p hp

/-- A new stream with the references of the list and of the ICE handler. -/
theorem insert (h : t.Balanced) {ids : IdsHeap} (hids : ids.WF) (hid : ¬t.ids.marked id)
    (hmarked : ∀ i, ids.marked i ↔ i = id ∨ t.ids.marked i) (hrefs : o.refs = 2) :
    Balanced { t.put id (some o) with list := t.list ++ [id], ids := ids } := by
  have hnot : id ∉ t.list := by rwa [← h.free]
  refine ⟨hids, ?_, fun i => ?_, fun i => ?_, fun i p hp => ?_⟩
  · exact List.nodup_append.mpr ⟨h.nodup, List.nodup_singleton id, by
      intro a ha b hb heq
      rw [List.mem_singleton.mp hb] at heq
      exact hnot (heq ▸ ha)⟩
  · simp only [put_obj, List.mem_append, List.mem_singleton, ← h.live]
    split_ifs with hi <;> simp [hi]
  · rw [hmarked, h.free, List.mem_append, List.mem_singleton, or_comm]
  · simp only [put_obj] at hp
    split_ifs at hp
    · cases hp
      exact .inl hrefs
    · exact h.refs i p hp

theorem addStream (h : t.Balanced) {reliable create handlers init : Bool}
    (hgives : t.GivesBack (.add reliable create handlers init)) :
    (t.addStream P reliable create handlers init).2.Balanced := by
  unfold StreamTable.addStream
  cases create with
  | false => exact h
  | true =>
    obtain ⟨c, h1, -, hc, hfree, hmarked⟩ | ⟨hnone, -⟩ := idsHeapAlloc_marked h.heap
    · have hpos : ¬(c : ℤ) ≤ 0 := by omega
      have hids := (idsHeapAlloc_wf h.heap).1
      have hnot : c ∉ t.list := by rwa [← h.free]
      have hinsert := h.insert (o := ⟨.new reliable, 2⟩) hids hfree hmarked rfl
      have hundo : (handlers && init) = false →
          Balanced { t.put c none with ids := idsHeapFree P (idsHeapAlloc t.ids).1 c } := by
        intro hfail
        have hmem : c ∈ t.list ++ [c] := List.mem_append_right _ (List.mem_singleton_self c)
        have hlow : LowId c := by
          simpa [hc, Nat.pos_of_ne_zero (Nat.one_le_iff_ne_zero.mp h1)] using hgives rfl hfail
        have hdestroy := destroy (P := P) hinsert hmem hlow
        simpa [put, List.erase_append_right _ hnot] using hdestroy
      simp only [hc, hpos, Int.toNat_natCast, Bool.not_true, Bool.false_eq_true, if_false]
      cases handlers with
      | false =>
        simp only [Bool.not_false, if_true]
        rw [derefStream_last P _ c rfl]
        exact hundo rfl
      | true =>
        simp only [Bool.not_true, Bool.false_eq_true, if_false, put_listAdd, refStream_put]
        cases init with
        | false =>
          simp only [Bool.not_false, if_true]
          rw [derefStream_succ P _ c (n := 1) rfl, put_listRemove,
            derefStream_succ P _ c (n := 0) rfl, derefStream_last P _ c rfl]
          have hlist : (t.list ++ [c]).erase c = t.list := by
            simp [List.erase_append_right _ hnot]
          have hrest := hundo rfl
          simp only [put, listRemove, listAdd, hlist] at hrest ⊢
          exact hrest
        | true =>
          simp only [Bool.not_true, Bool.false_eq_true, if_false]
          rw [derefStream_succ P _ c (n := 1) rfl]
          exact hinsert
    · simp [hnone]
      exact h

/-- The stream is destroyed by the last of the references that a removal drops. -/
theorem removeStream_eq (h : t.Balanced) (hid : id ∈ t.list) (hobj : t.obj id = some o)
    (hfirst : o.refs = 1 ∨ o.ice.stopping = false ∧ o.ice.hasSess) :
    (t.removeStream P id).2 =
      { t.put id none with list := t.list.erase id, ids := idsHeapFree P t.ids id } := by
  obtain ⟨hdrop, -⟩ := iceHandlerStop_flags o.ice 0
  have hstop : (t.refStream id).stopStream P id 0 =
      t.put id (some ⟨(o.ice.iceHandlerStop 0).2, 2⟩) := by
    rw [refStream_eq hobj]
    simp only [StreamTable.stopStream, put_obj_self, put_put, hdrop]
    obtain hrefs | ⟨hrefs, hstopped⟩ := h.refs id o hobj
    · obtain hone | ⟨hnot, hsess⟩ := hfirst
      · omega
      · simp only [hnot, hsess, Bool.not_false, Bool.and_self, if_true]
        rw [derefStream_succ P t id (n := 1) (by simp [hrefs])]
    · simp [hstopped, hrefs]
  simp only [StreamTable.removeStream, if_neg (not_not.mpr hid), hstop]
  rw [put_listRemove, derefStream_succ P _ id (n := 0) rfl, derefStream_last P _ id rfl]
  rfl

theorem removeStream (h : t.Balanced) (hgives : t.GivesBack (.remove id)) :
    (t.removeStream P id).2.Balanced := by
  by_cases hid : id ∈ t.list
  · obtain ⟨o, hobj⟩ := Option.isSome_iff_exists.mp ((h.live id).mpr hid)
    obtain ⟨hfirst, hlow⟩ := hgives o hobj
    rw [h.removeStream_eq hid hobj hfirst]
    exact h.destroy hid hlow
  · rw [StreamTable.removeStream, if_pos hid]
    exact h

theorem reclaimed (h : t.Balanced) : t.Reclaimed := by
  refine ⟨h.live, h.free, ?_⟩
  have hset : t.allocated = t.list.toFinset := by
    ext i
    simp only [allocated, Finset.mem_filter, Finset.mem_Icc, List.mem_toFinset, ← h.free]
    constructor
    · exact And.right
    · intro hm
      have hlt := Bitset.isSet_lt hm.2
      rw [h.heap.size_eq] at hlt
      have := hm.1
      exact ⟨⟨this, by omega⟩, hm⟩
  rw [hset, List.toFinset_card_of_nodup h.nodup]

theorem streamEvent (h : t.Balanced) {ev : IceStream.Event} {t' : StreamTable}
    (hstep : t.streamEvent P id ev = some t') : t'.Balanced := by
  unfold StreamTable.streamEvent at hstep
  split at hstep
  · cases hstep
  · next o hobj =>
    split at hstep
    · cases hstep
      exact h.stopStream hobj _
    · obtain ⟨ice, hice, rfl⟩ := Option.map_eq_some_iff.mp hstep
      exact h.putIce hobj _ (step_stopping hice)

theorem step (h : t.Balanced) {op : Op} {t' : StreamTable} (hgives : t.GivesBack op)
    (hstep : t.step P op = some t') : t'.Balanced := by
  cases op with
  | add reliable create handlers init =>
    cases hstep
    exact h.addStream hgives
  | prepare initIce alloc =>
    cases hstep
    exact h.prepareStreams initIce alloc _
  | start deactivate createTimer startIce alloc allocFailed =>
    cases hstep
    split_ifs
    · exact h.startStreams deactivate createTimer startIce alloc allocFailed _
    · exact h
  | event id ev => exact h.streamEvent hstep
  | remove id =>
    cases hstep
    exact h.removeStream hgives

end Balanced

theorem init_balanced : init.Balanced :=
  ⟨idsHeapInit_wf (by decide), List.nodup_nil, fun _ => by simp [init],
    fun id => by simp [init, idsHeapInit_marked], fun _ _ h => by cases h⟩

theorem removeStream_list (P : IntShift) {t : StreamTable} (h : t.Balanced) {id : ℕ}
    (hgives : t.GivesBack (.remove id)) : id ∉ (t.removeStream P id).2.list := by
  by_cases hid : id ∈ t.list
  · obtain ⟨o, hobj⟩ := Option.isSome_iff_exists.mp ((h.live id).mpr hid)
    rw [h.removeStream_eq hid hobj (hgives o hobj).1]
    exact h.nodup.not_mem_erase
  · rw [removeStream, if_pos hid]
    exact hid

/-- As long as every stream that is removed has been prepared and its id can be given back, no
stream outlives its removal and no id is lost. -/
theorem exec_reclaimed (P : IntShift) {ops : List Op} {t : StreamTable}
    (h : exec (step P) init ops = some t) (hgives : Along (step P) GivesBack init ops) :
    t.Reclaimed ∧
      ∀ id, ops.getLast? = some (.remove id) → t.obj id = none ∧ ¬t.ids.marked id := by
  have hbal := exec_invariant_along (fun _ _ _ hI hC hstep => hI.step hC hstep) init_balanced
    hgives h
  refine ⟨hbal.reclaimed, ?_⟩
  intro id hlast
  have hnot : id ∉ t.list := by
    obtain ⟨before, rfl⟩ := List.getLast?_eq_some_iff.mp hlast
    obtain ⟨m, hm, hremove⟩ := exec_append_eq_some.mp h
    obtain ⟨hbefore, hnow⟩ := along_append.mp hgives
    have hbalm : m.Balanced := exec_invariant_along
      (fun _ _ _ hI hC hstep => hI.step hC hstep) init_balanced hbefore hm
    obtain ⟨_, hstep, ⟨⟩⟩ := exec_cons_eq_some.mp hremove
    cases hstep
    exact removeStream_list P hbalm (hnow m hm).1
  constructor
  · rwa [← hbal.live, Option.not_isSome_iff_eq_none] at hnot
  · rwa [hbal.free]

/-- A stream that is set up, prepared and removed. -/
def preparedThenRemoved : List Op :=
  [.add false true true true, .event 1 (.iceComplete .init true true), .event 1 .deliver,
    .prepare (fun _ => true) (fun _ => true), .event 1 .deliver, .remove 1]

theorem preparedThenRemoved_reclaimed : ∃ t,
    exec (step .modWidth) init preparedThenRemoved = some t ∧ t.Reclaimed ∧ t.obj 1 = none := by
  obtain ⟨t, ht⟩ := Option.isSome_iff_exists.mp
    (show (exec (step .modWidth) init preparedThenRemoved).isSome by decide +kernel)
  obtain ⟨hrec, hlast⟩ := exec_reclaimed .modWidth ht (by decide +kernel)
  exact ⟨t, ht, hrec, (hlast 1 rfl).1⟩

/-- A stream that is removed before it is prepared keeps a reference and its id. -/
theorem removed_unprepared_not_reclaimed : ∃ t,
    exec (step .modWidth) init [.add false true true true, .remove 1] = some t ∧ t.list = [] ∧
      (t.obj 1).map StreamObj.refs = some 1 ∧ t.ids.marked 1 ∧ ¬t.Reclaimed := by
  obtain ⟨t, ht, hleft⟩ := (Option.any_eq_true _ _).mp
    (show (exec (step .modWidth) init [.add false true true true, .remove 1]).any (fun t =>
      t.list = [] ∧ (t.obj 1).map StreamObj.refs = some 1 ∧ t.ids.marked 1) = true by
        decide +kernel)
  obtain ⟨hlist, hrefs, hmarked⟩ := of_decide_eq_true hleft
  refine ⟨t, ht, hlist, hrefs, hmarked, ?_⟩
  intro hrec
  have hmem := (hrec.free 1).mp hmarked
  rw [hlist] at hmem
  cases hmem

end StreamTable

end Carrier.Session
