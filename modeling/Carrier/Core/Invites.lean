import Carrier.Common.Error
import Carrier.Common.HashtableRefinement

/-! Invites of friends in `carrier/IOEX_carrier.c` and the table of `carrier/tcallbacks.h`, in which
their callbacks wait for the answers. -/
namespace Carrier.Core
open Carrier.Lib Carrier.Common

def cidHashCode (tid : BitVec 64) : BitVec 32 := tid.setWidth 32 + (tid >>> 32).setWidth 32

def cidCompare (tid1 tid2 : BitVec 64) : ℤ :=
  if tid1.toInt > tid2.toInt then 1 else if tid1.toInt < tid2.toInt then -1 else 0

def cidOps : HashOps (BitVec 64) := ⟨cidHashCode, cidCompare⟩

/-- `TransactedCallback` -/
structure TransactedCallback (Fn C : Type*) where
  tid : BitVec 64
  callbackFunc : Fn
  callbackContext : C

/-- The table of transactions. Callbacks are addressed in the order in which they were allocated. -/
abbrev Transactions := Hashtable (BitVec 64) ℕ ℕ

def transactedCallbacksCreate (capacity : ℕ) (mem : Transactions) : Transactions :=
  hashtableCreate capacity mem

def transactedCallbacksExist (t : Transactions) (tid : BitVec 64) : Option Bool :=
  hashtableExist cidOps t tid

def transactedCallbacksPut (t : Transactions) (callback : ℕ) (tid : BitVec 64) :
    Option Transactions := (hashtablePut cidOps t callback tid callback).map Prod.fst

def transactedCallbacksGet (t : Transactions) (tid : BitVec 64) :
    Option (Transactions × Option ℕ) := hashtableGet cidOps t tid

def transactedCallbacksRemove (t : Transactions) (tid : BitVec 64) : Option Transactions :=
  (hashtableRemove cidOps t tid).map (fun (t, callback) => callback.elim t t.deref)

/-- An INVITE_RESPONSE message. -/
structure InviteResponse where
  tid : BitVec 64
  status : ℤ
  reason : Bytes
  rawData : Bytes

/-- The reason that a callback is given: the one of a refusal. -/
def InviteResponse.givenReason (cp : InviteResponse) : Option Bytes :=
  if cp.status ≠ 0 then some cp.reason else none

/-- The data that a callback is given: those of a confirmation. -/
def InviteResponse.givenData (cp : InviteResponse) : Option Bytes :=
  if cp.status ≠ 0 then none else some cp.rawData

/-- What happens to invites: one is registered for a friend, a message arrives from a friend, and a
callback is invoked while such a message is handled. -/
inductive InviteEvent (Fn C : Type*) where
  | registered (tcb : ℕ) (friendNumber : BitVec 32) (callback : TransactedCallback Fn C)
  | received (friendNumber : BitVec 32) (cp : InviteResponse)
  | invoked (tcb : ℕ) (friendNumber : BitVec 32) (cp : InviteResponse) (callbackFunc : Fn)
      (status : ℤ) (reason data : Option Bytes) (callbackContext : C)

/-- The part of a carrier that invites use, with what has happened so far. -/
structure Inviter (Fn C : Type*) where
  tcallbacks : Transactions
  heap : List (TransactedCallback Fn C)
  log : List (InviteEvent Fn C)

/-- A call of `IOEX_invite_friend`: its arguments, and what the rest of the carrier answers to it. -/
structure InviteCall (Fn C : Type*) where
  valid : Bool
  isReady : Bool
  friendNumber : Option (BitVec 32)
  friendsExist : Bool
  encoded : Bool
  tid : BitVec 64
  allocated : Bool
  callback : Fn
  context : C
  dhtRc : ℤ

variable {Fn C : Type*}

/-- The checks of `IOEX_invite_friend` up to the allocation: the friend number, or the error. -/
def InviteCall.check (call : InviteCall Fn C) : Except ErrorCode (BitVec 32) :=
  if !call.valid then .error .invalidArgs
  else if !call.isReady then .error .notReady
  else
    match call.friendNumber with
    | none => .error .notExist
    | some friendNumber =>
      if !call.friendsExist then .error .notExist
      else if !call.encoded then .error .outOfMemory
      else if !call.allocated then .error .outOfMemory
      else .ok friendNumber

/-- `IOEX_invite_friend`, with the error it sets. -/
def inviteFriend (w : Inviter Fn C) (call : InviteCall Fn C) :
    Option (Inviter Fn C × Except ℤ Unit) :=
  match call.check with
  | .error e => some (w, .error (intError e))
  | .ok friendNumber =>
    let callback : TransactedCallback Fn C := ⟨call.tid, call.callback, call.context⟩
    let tcb := w.heap.length
    (transactedCallbacksPut (w.tcallbacks.rcAlloc tcb) tcb call.tid).map (fun t =>
      ({ tcallbacks := t.deref tcb
         heap := w.heap ++ [callback]
         log := w.log ++ [.registered tcb friendNumber callback] },
        if call.dhtRc < 0 then .error call.dhtRc else .ok ()))

/-- `handle_invite_response` of a message from a friend, which may not be known any more. -/
def handleInviteResponse (w : Inviter Fn C) (friendNumber : BitVec 32) (known : Bool)
    (cp : InviteResponse) : Option (Inviter Fn C) :=
  let w := { w with log := w.log ++ [.received friendNumber cp] }
  if !known then some w
  else
    match transactedCallbacksGet w.tcallbacks cp.tid with
    | none => none
    | some (t, none) => some { w with tcallbacks := t }
    | some (t, some tcb) =>
      match w.heap[tcb]? with
      | none => none
      | some callback =>
        (transactedCallbacksRemove (t.deref tcb) cp.tid).map (fun t =>
          { w with
            tcallbacks := t
            log := w.log ++ [.invoked tcb friendNumber cp callback.callbackFunc cp.status
              cp.givenReason cp.givenData callback.callbackContext] })

inductive InviteOp (Fn C : Type*) where
  | invite (call : InviteCall Fn C)
  | response (friendNumber : BitVec 32) (known : Bool) (cp : InviteResponse)

def inviteStep (w : Inviter Fn C) : InviteOp Fn C → Option (Inviter Fn C)
  | .invite call => (inviteFriend w call).map Prod.fst
  | .response friendNumber known cp => handleInviteResponse w friendNumber known cp

def Inviter.new (mem : Transactions) : Inviter Fn C := ⟨transactedCallbacksCreate 32 mem, [], []⟩

section Table

theorem cidCompare_eq_zero_iff (tid1 tid2 : BitVec 64) : cidCompare tid1 tid2 = 0 ↔ tid1 = tid2 := by
  unfold cidCompare
  rw [← BitVec.toInt_inj]
  split_ifs with hgt hlt
  · simp [hgt.ne']
  · simp [hlt.ne]
  · simp
    omega

theorem cidOps_same (tid1 tid2 : BitVec 64) : cidOps.same tid1 tid2 = decide (tid1 = tid2) := by
  unfold HashOps.same
  rw [decide_eq_decide]
  constructor
  · intro h
    exact (cidCompare_eq_zero_iff tid1 tid2).mp h.2
  · rintro rfl
    exact ⟨rfl, (cidCompare_eq_zero_iff tid1 tid1).mpr rfl⟩

theorem cidOps_equivalence : Equivalence (fun k k' => cidOps.same k k' = true) := by
  simp only [cidOps_same, decide_eq_true_eq]
  exact eq_equivalence

theorem cidOps_fits (tid : BitVec 64) : (cidOps.hashCode tid).toNat % 32 < 2 ^ 31 := by
  have := Nat.mod_lt (cidOps.hashCode tid).toNat (show 32 > 0 by decide)
  omega

/-- The entries with the transaction id `tid`. -/
def hasTid (tid : BitVec 64) (e : Entry (BitVec 64) ℕ ℕ) : Bool := e.key = tid

theorem hasTid_eq (tid : BitVec 64) : (fun e => cidOps.same e.key tid) = hasTid tid :=
  funext (fun e => cidOps_same e.key tid)

variable {t : Transactions} {es : List (Entry (BitVec 64) ℕ ℕ)} (h : Rep cidOps 32 t es)
include h

theorem hasTid_one (tid : BitVec 64) : es.Pairwise (fun x y => ¬(hasTid tid x ∧ hasTid tid y)) := by
  rw [← hasTid_eq]
  exact h.hit_one cidOps_equivalence tid

theorem transactedCallbacksPut_rep {callback : ℕ} (hnew : ∀ e ∈ es, e.addr ≠ callback)
    (tid : BitVec 64) : ∃ t', transactedCallbacksPut t callback tid = some t' ∧
      Rep cidOps 32 t' (putEntry (hasTid tid) es ⟨callback, tid, callback⟩) := by
  obtain ⟨t', hput, hholds, -⟩ := h.holds.put cidOps_equivalence (cidOps_fits tid)
    (fun e he haddr => absurd haddr (hnew e he))
  rw [hasTid_eq] at hholds
  refine ⟨t', ?_, hholds.rep⟩
  rw [transactedCallbacksPut, hput]
  rfl

theorem transactedCallbacksExist_rep (tid : BitVec 64) :
    transactedCallbacksExist t tid = some (es.any (hasTid tid)) := by
  rw [← hasTid_eq]
  exact h.holds.exist cidOps_equivalence (cidOps_fits tid)

theorem transactedCallbacksGet_rep (tid : BitVec 64) :
    ∃ t', transactedCallbacksGet t tid = some (t', (es.find? (hasTid tid)).map Entry.data) ∧
      Rep cidOps 32 t' es := by
  obtain ⟨t', hget, hholds⟩ := h.holds.get cidOps_equivalence (cidOps_fits tid)
  rw [hasTid_eq] at hget
  exact ⟨t', hget, hholds.rep⟩

theorem transactedCallbacksRemove_rep (tid : BitVec 64) :
    ∃ t', transactedCallbacksRemove t tid = some t' ∧
      Rep cidOps 32 t' (removeEntry (hasTid tid) es) := by
  obtain ⟨t₁, hremove, hholds, -⟩ := h.holds.remove cidOps_equivalence (cidOps_fits tid)
  rw [hasTid_eq] at hremove hholds
  rw [transactedCallbacksRemove, hremove]
  cases (es.find? (hasTid tid)).map Entry.data with
  | none => exact ⟨t₁, rfl, hholds.rep⟩
  | some callback => exact ⟨t₁.deref callback, rfl, hholds.rep.counters _ _⟩

end Table

/-- The table holds the entries `es`, each of a callback with its transaction id. -/
structure Stored (w : Inviter Fn C) (es : List (Entry (BitVec 64) ℕ ℕ)) : Prop where
  rep : Rep cidOps 32 w.tcallbacks es
  data : ∀ e ∈ es, e.data = e.addr
  callback : ∀ e ∈ es, ∃ callback, w.heap[e.addr]? = some callback ∧ callback.tid = e.key

/-- Everything a call can do. -/
inductive Happens (w : Inviter Fn C) (es : List (Entry (BitVec 64) ℕ ℕ)) :
    InviteOp Fn C → Inviter Fn C → List (Entry (BitVec 64) ℕ ℕ) → Prop
  | refused {call : InviteCall Fn C} {e : ErrorCode} (hcheck : call.check = .error e) :
    Happens w es (.invite call) w es
  | registered {call : InviteCall Fn C} {friendNumber : BitVec 32} {t : Transactions}
    (hcheck : call.check = .ok friendNumber) :
    Happens w es (.invite call)
      ⟨t, w.heap ++ [⟨call.tid, call.callback, call.context⟩],
        w.log ++ [.registered w.heap.length friendNumber ⟨call.tid, call.callback, call.context⟩]⟩
      (putEntry (hasTid call.tid) es ⟨w.heap.length, call.tid, w.heap.length⟩)
  | dropped {friendNumber : BitVec 32} {known : Bool} {cp : InviteResponse} {t : Transactions}
    (hdrop : known = false ∨ es.find? (hasTid cp.tid) = none) :
    Happens w es (.response friendNumber known cp)
      ⟨t, w.heap, w.log ++ [.received friendNumber cp]⟩ es
  | answered {friendNumber : BitVec 32} {cp : InviteResponse} {t : Transactions}
    {e : Entry (BitVec 64) ℕ ℕ} {callback : TransactedCallback Fn C}
    (he : e ∈ es) (hkey : e.key = cp.tid) (hcallback : w.heap[e.addr]? = some callback) :
    Happens w es (.response friendNumber true cp)
      ⟨t, w.heap, w.log ++ [.received friendNumber cp, .invoked e.addr friendNumber cp
        callback.callbackFunc cp.status cp.givenReason cp.givenData callback.callbackContext]⟩
      (removeEntry (hasTid cp.tid) es)

section Step

variable {w w' : Inviter Fn C} {es es' : List (Entry (BitVec 64) ℕ ℕ)}

theorem Stored.addr_lt (h : Stored w es) {e : Entry (BitVec 64) ℕ ℕ} (he : e ∈ es) :
    e.addr < w.heap.length := by
  obtain ⟨callback, hget, -⟩ := h.callback e he
  exact (List.getElem?_eq_some_iff.mp hget).1

theorem Stored.find (h : Stored w es) {e : Entry (BitVec 64) ℕ ℕ} (he : e ∈ es) :
    es.find? (hasTid e.key) = some e :=
  find?_of_mem (hasTid_one h.rep e.key) he (decide_eq_true rfl)

theorem Stored.get (h : Stored w es) {e : Entry (BitVec 64) ℕ ℕ} (he : e ∈ es) :
    ∃ t, transactedCallbacksGet w.tcallbacks e.key = some (t, some e.addr) := by
  obtain ⟨t, hget, -⟩ := transactedCallbacksGet_rep h.rep e.key
  rw [h.find he, Option.map_some, h.data e he] at hget
  exact ⟨t, hget⟩

theorem stored_new (mem : Transactions) : Stored (Inviter.new mem : Inviter Fn C) [] :=
  ⟨(holds_create cidOps (by decide) mem).rep, by simp, by simp⟩

/-- A call of `IOEX_invite_friend` that passes the checks registers its callback. -/
theorem Stored.register (h : Stored w es) {call : InviteCall Fn C} {friendNumber : BitVec 32}
    (hcheck : call.check = .ok friendNumber) :
    ∃ w' es', inviteStep w (.invite call) = some w' ∧ Stored w' es' ∧
      Happens w es (.invite call) w' es' := by
  have hrep : Rep cidOps 32 (w.tcallbacks.rcAlloc w.heap.length) es := h.rep.counters _ _
  obtain ⟨t, hput, hrep'⟩ :=
    transactedCallbacksPut_rep hrep (fun e he => (h.addr_lt he).ne) call.tid
  refine ⟨_, _, ?_, ?_, Happens.registered (t := t.deref w.heap.length) hcheck⟩
  · rw [inviteStep, inviteFriend, hcheck]
    dsimp only
    rw [hput]
    rfl
  · constructor
    · exact hrep'.counters _ _
    · intro e he
      rcases mem_of_mem_putEntry he with rfl | he
      · rfl
      · exact h.data e he
    · intro e he
      rcases mem_of_mem_putEntry he with rfl | he
      · exact ⟨_, List.getElem?_concat_length, rfl⟩
      · obtain ⟨callback, hget, htid⟩ := h.callback e he
        refine ⟨callback, ?_, htid⟩
        rw [List.getElem?_append_left (h.addr_lt he)]
        exact hget

/-- A message with the transaction id of an entry takes it out and invokes its callback. -/
theorem Stored.answer (h : Stored w es) {friendNumber : BitVec 32} {cp : InviteResponse}
    {e : Entry (BitVec 64) ℕ ℕ} (hfind : es.find? (hasTid cp.tid) = some e) :
    ∃ w' es', inviteStep w (.response friendNumber true cp) = some w' ∧ Stored w' es' ∧
      Happens w es (.response friendNumber true cp) w' es' := by
  have he := List.mem_of_find?_eq_some hfind
  have hkey : e.key = cp.tid := by simpa [hasTid] using List.find?_some hfind
  obtain ⟨t₁, hget, hrep₁⟩ := transactedCallbacksGet_rep h.rep cp.tid
  rw [hfind, Option.map_some, h.data e he] at hget
  have hrep₂ : Rep cidOps 32 (t₁.deref e.addr) es := hrep₁.counters _ _
  obtain ⟨t, hremove, hrep⟩ := transactedCallbacksRemove_rep hrep₂ cp.tid
  obtain ⟨callback, hcallback, -⟩ := h.callback e he
  refine ⟨_, _, ?_, ?_, Happens.answered (t := t) he hkey hcallback⟩
  rotate_left
  · constructor
    · exact hrep
    · intro x hx
      exact h.data x (mem_of_mem_removeEntry hx)
    · intro x hx
      exact h.callback x (mem_of_mem_removeEntry hx)
  · rw [inviteStep, handleInviteResponse]
    dsimp only
    rw [if_neg (by simp), hget]
    dsimp only
    rw [hcallback]
    dsimp only
    rw [hremove, Option.map_some, List.append_assoc]
    rfl

theorem Stored.step (h : Stored w es) (op : InviteOp Fn C) :
    ∃ w' es', inviteStep w op = some w' ∧ Stored w' es' ∧ Happens w es op w' es' := by
  cases op with
  | invite call =>
    cases hcheck : call.check with
    | error e =>
      refine ⟨w, es, ?_, h, Happens.refused hcheck⟩
      rw [inviteStep, inviteFriend, hcheck]
      rfl
    | ok friendNumber => exact h.register hcheck
  | response friendNumber known cp =>
    cases known with
    | false => exact ⟨_, es, rfl, ⟨h.rep, h.data, h.callback⟩, Happens.dropped (.inl rfl)⟩
    | true =>
      cases hfind : es.find? (hasTid cp.tid) with
      | some e => exact h.answer hfind
      | none =>
        obtain ⟨t, hget, hrep⟩ := transactedCallbacksGet_rep h.rep cp.tid
        rw [hfind, Option.map_none] at hget
        refine ⟨⟨t, w.heap, w.log ++ [.received friendNumber cp]⟩, es, ?_,
          ⟨hrep, h.data, h.callback⟩, Happens.dropped (.inr hfind)⟩
        rw [inviteStep, handleInviteResponse]
        dsimp only
        rw [if_neg (by simp), hget]

theorem Stored.happens (h : Stored w es) {op : InviteOp Fn C} (hstep : inviteStep w op = some w') :
    ∃ es', Stored w' es' ∧ Happens w es op w' es' := by
  obtain ⟨w₁, es', hstep₁, hstored, hhappens⟩ := h.step op
  obtain rfl := Option.some.inj (hstep₁.symm.trans hstep)
  exact ⟨es', hstored, hhappens⟩

end Step

def InviteEvent.invokes (tcb : ℕ) : InviteEvent Fn C → Bool
  | .invoked tcb' _ _ _ _ _ _ _ => tcb' = tcb
  | _ => false

/-- Every answer reaches the invite it is for: the callback of an invite is invoked at most once, and
only while a message from its friend with its transaction id is handled; as long as there was no such
message the callback is found in the table. -/
def Inviter.Routed (w : Inviter Fn C) : Prop :=
  ∀ tcb friendNumber callback, .registered tcb friendNumber callback ∈ w.log →
    w.log.countP (InviteEvent.invokes tcb) ≤ 1 ∧
    (∀ sender cp callbackFunc status reason data callbackContext,
      .invoked tcb sender cp callbackFunc status reason data callbackContext ∈ w.log →
        sender = friendNumber ∧ cp.tid = callback.tid ∧ callbackFunc = callback.callbackFunc ∧
          callbackContext = callback.callbackContext) ∧
    ((∀ cp : InviteResponse, cp.tid = callback.tid →
        ¬List.Sublist [.registered tcb friendNumber callback, .received friendNumber cp] w.log) →
      (∃ t, transactedCallbacksGet w.tcallbacks callback.tid = some (t, some tcb)) ∧
        w.heap[tcb]? = some callback)

/-- The transaction id of an invite is not in use, and an answer with the id of a waiting invite is
from the friend that invite went to. -/
def InviteOp.Separate (w : Inviter Fn C) : InviteOp Fn C → Prop
  | .invite call => ∀ friendNumber, call.check = .ok friendNumber →
    transactedCallbacksExist w.tcallbacks call.tid = some false
  | .response friendNumber known cp => known = true →
    ∀ t tcb, transactedCallbacksGet w.tcallbacks cp.tid = some (t, some tcb) →
      ∃ callback, .registered tcb friendNumber callback ∈ w.log

/-- What holds of the log and the entries as long as invites are kept apart. -/
structure Tidy (w : Inviter Fn C) (es : List (Entry (BitVec 64) ℕ ℕ)) : Prop where
  stored : Stored w es
  heap : ∀ i f cb, .registered i f cb ∈ w.log → w.heap[i]? = some cb
  unique : ∀ i f f' cb cb', .registered i f cb ∈ w.log → .registered i f' cb' ∈ w.log → f = f'
  waiting : ∀ i f cb, .registered i f cb ∈ w.log → (∃ e ∈ es, e.addr = i) ∨
    ∃ cp : InviteResponse,
      cp.tid = cb.tid ∧ List.Sublist [.registered i f cb, .received f cp] w.log
  once : ∀ i, w.log.countP (InviteEvent.invokes i) ≤ 1
  gone : ∀ i, 0 < w.log.countP (InviteEvent.invokes i) →
    i < w.heap.length ∧ ∀ e ∈ es, e.addr ≠ i
  own : ∀ i f cp fn status reason data ctx, .invoked i f cp fn status reason data ctx ∈ w.log →
    ∀ f' cb, .registered i f' cb ∈ w.log →
      f = f' ∧ cp.tid = cb.tid ∧ fn = cb.callbackFunc ∧ ctx = cb.callbackContext

namespace Tidy

variable {w : Inviter Fn C} {es : List (Entry (BitVec 64) ℕ ℕ)} {t : Transactions}
  (h : Tidy w es)
include h

theorem registered_lt {i : ℕ} {f : BitVec 32} {cb : TransactedCallback Fn C}
    (hreg : .registered i f cb ∈ w.log) : i < w.heap.length :=
  (List.getElem?_eq_some_iff.mp (h.heap i f cb hreg)).1

theorem tid_eq {e : Entry (BitVec 64) ℕ ℕ} (he : e ∈ es) {f : BitVec 32}
    {cb : TransactedCallback Fn C} (hreg : .registered e.addr f cb ∈ w.log) : cb.tid = e.key := by
  obtain ⟨cb', hget, htid⟩ := h.stored.callback e he
  have hcb : cb' = cb := Option.some.inj (hget.symm.trans (h.heap e.addr f cb hreg))
  exact hcb ▸ htid

/-- A new invite with an id that is not in use. -/
theorem register {friendNumber : BitVec 32} {cb : TransactedCallback Fn C}
    (hstored : Stored ⟨t, w.heap ++ [cb], w.log ++ [.registered w.heap.length friendNumber cb]⟩
      (es ++ [⟨w.heap.length, cb.tid, w.heap.length⟩])) :
    Tidy ⟨t, w.heap ++ [cb], w.log ++ [.registered w.heap.length friendNumber cb]⟩
      (es ++ [⟨w.heap.length, cb.tid, w.heap.length⟩]) := by
  have hcount (i : ℕ) : (w.log ++ [InviteEvent.registered w.heap.length friendNumber cb]).countP
      (InviteEvent.invokes i) = w.log.countP (InviteEvent.invokes i) := by
    simp [InviteEvent.invokes]
  have hreg (i : ℕ) (f : BitVec 32) (cb' : TransactedCallback Fn C)
      (hmem : .registered i f cb' ∈ w.log ++ [.registered w.heap.length friendNumber cb]) :
      .registered i f cb' ∈ w.log ∨ i = w.heap.length ∧ f = friendNumber ∧ cb' = cb := by
    simpa using hmem
  constructor
  case stored => exact hstored
  case heap =>
    intro i f cb' hmem
    rcases hreg i f cb' hmem with hold | ⟨rfl, -, rfl⟩
    · exact (List.getElem?_append_left (h.registered_lt hold)).trans (h.heap i f cb' hold)
    · exact List.getElem?_concat_length
  case unique =>
    intro i f f' cb₁ cb₂ h₁ h₂
    rcases hreg i f cb₁ h₁ with hold₁ | ⟨rfl, rfl, -⟩
    · rcases hreg i f' cb₂ h₂ with hold₂ | ⟨rfl, -, -⟩
      · exact h.unique i f f' cb₁ cb₂ hold₁ hold₂
      · exact absurd (h.registered_lt hold₁) (lt_irrefl _)
    · rcases hreg _ f' cb₂ h₂ with hold₂ | ⟨-, rfl, -⟩
      · exact absurd (h.registered_lt hold₂) (lt_irrefl _)
      · rfl
  case waiting =>
    intro i f cb' hmem
    rcases hreg i f cb' hmem with hold | ⟨rfl, -, -⟩
    · rcases h.waiting i f cb' hold with ⟨e, he, haddr⟩ | ⟨cp, htid, hsub⟩
      · exact .inl ⟨e, List.mem_append_left _ he, haddr⟩
      · exact .inr ⟨cp, htid, hsub.trans (List.sublist_append_left _ _)⟩
    · exact .inl ⟨_, List.mem_append_right _ (List.mem_singleton_self _), rfl⟩
  case once =>
    intro i
    rw [hcount]
    exact h.once i
  case gone =>
    intro i hi
    rw [hcount] at hi
    obtain ⟨hlt, hout⟩ := h.gone i hi
    refine ⟨?_, fun e he => ?_⟩
    · rw [List.length_append]
      omega
    · rcases List.mem_append.mp he with he | he
      · exact hout e he
      · rw [List.mem_singleton.mp he]
        exact hlt.ne'
  case own =>
    intro i f cp fn status reason data ctx hinv f' cb' hmem
    have hinv' : .invoked i f cp fn status reason data ctx ∈ w.log := by simpa using hinv
    rcases hreg i f' cb' hmem with hold | ⟨rfl, -, -⟩
    · exact h.own i f cp fn status reason data ctx hinv' f' cb' hold
    · have hpos : 0 < w.log.countP (InviteEvent.invokes w.heap.length) :=
        List.countP_pos_iff.mpr ⟨_, hinv', by simp [InviteEvent.invokes]⟩
      exact absurd (h.gone _ hpos).1 (lt_irrefl _)

theorem drop {friendNumber : BitVec 32} {cp : InviteResponse}
    (hstored : Stored ⟨t, w.heap, w.log ++ [.received friendNumber cp]⟩ es) :
    Tidy ⟨t, w.heap, w.log ++ [.received friendNumber cp]⟩ es := by
  have hcount (i : ℕ) : (w.log ++ [InviteEvent.received friendNumber cp]).countP
      (InviteEvent.invokes i) = w.log.countP (InviteEvent.invokes i) := by
    simp [InviteEvent.invokes]
  have hreg {i : ℕ} {f : BitVec 32} {cb : TransactedCallback Fn C}
      (hmem : .registered i f cb ∈ w.log ++ [.received friendNumber cp]) :
      .registered i f cb ∈ w.log := by
    simpa using hmem
  constructor
  case stored => exact hstored
  case heap => exact fun i f cb hmem => h.heap i f cb (hreg hmem)
  case unique => exact fun i f f' cb cb' h₁ h₂ => h.unique i f f' cb cb' (hreg h₁) (hreg h₂)
  case waiting =>
    intro i f cb hmem
    rcases h.waiting i f cb (hreg hmem) with hin | ⟨cp', htid, hsub⟩
    · exact .inl hin
    · exact .inr ⟨cp', htid, hsub.trans (List.sublist_append_left _ _)⟩
  case once =>
    intro i
    rw [hcount]
    exact h.once i
  case gone =>
    intro i hi
    rw [hcount] at hi
    exact h.gone i hi
  case own =>
    intro i f cp' fn status reason data ctx hinv f' cb hmem
    have hinv' : .invoked i f cp' fn status reason data ctx ∈ w.log := by simpa using hinv
    exact h.own i f cp' fn status reason data ctx hinv' f' cb (hreg hmem)

/-- A message from the friend of a waiting invite, with its transaction id. -/
theorem answer {friendNumber : BitVec 32} {cp : InviteResponse} {e : Entry (BitVec 64) ℕ ℕ}
    {callback : TransactedCallback Fn C} {log : List (InviteEvent Fn C)} (he : e ∈ es)
    (hkey : e.key = cp.tid) (hcallback : w.heap[e.addr]? = some callback)
    (hfriend : ∃ cb, .registered e.addr friendNumber cb ∈ w.log)
    (hlog : log = w.log ++ [.received friendNumber cp, .invoked e.addr friendNumber cp
      callback.callbackFunc cp.status cp.givenReason cp.givenData callback.callbackContext])
    (hstored : Stored ⟨t, w.heap, log⟩ (removeEntry (hasTid cp.tid) es)) :
    Tidy ⟨t, w.heap, log⟩ (removeEntry (hasTid cp.tid) es) := by
  have hnever : w.log.countP (InviteEvent.invokes e.addr) = 0 := by
    by_contra hne
    exact (h.gone e.addr (Nat.pos_of_ne_zero hne)).2 e he rfl
  have hcount (i : ℕ) : log.countP (InviteEvent.invokes i) =
      w.log.countP (InviteEvent.invokes i) + if e.addr = i then 1 else 0 := by
    simp [hlog, InviteEvent.invokes, List.countP_cons]
  have hreg {i : ℕ} {f : BitVec 32} {cb : TransactedCallback Fn C}
      (hmem : .registered i f cb ∈ log) : .registered i f cb ∈ w.log := by
    simpa [hlog] using hmem
  have hsame : ∀ x ∈ es, x.key = cp.tid → x = e := by
    intro x hx hxkey
    have hfx := h.stored.find hx
    rw [hxkey, ← hkey, h.stored.find he] at hfx
    exact (Option.some.inj hfx).symm
  -- the invite that is answered
  have hown {f : BitVec 32} {cb : TransactedCallback Fn C}
      (hmem : .registered e.addr f cb ∈ w.log) :
      friendNumber = f ∧ cp.tid = cb.tid ∧ callback = cb := by
    obtain ⟨cb₀, hcb₀⟩ := hfriend
    refine ⟨h.unique _ _ _ _ _ hcb₀ hmem, hkey ▸ (h.tid_eq he hmem).symm, ?_⟩
    exact Option.some.inj (hcallback.symm.trans (h.heap _ _ _ hmem))
  have hleft : ∀ x ∈ removeEntry (hasTid cp.tid) es, x ∈ es ∧ x.key ≠ cp.tid := by
    intro x hx
    have := List.mem_filter.mp hx
    simpa [hasTid] using this
  have hsub : w.log.Sublist log := hlog ▸ List.sublist_append_left _ _
  constructor
  case stored => exact hstored
  case heap => exact fun i f cb hmem => h.heap i f cb (hreg hmem)
  case unique => exact fun i f f' cb cb' h₁ h₂ => h.unique i f f' cb cb' (hreg h₁) (hreg h₂)
  case waiting =>
    intro i f cb hmem
    have hold := hreg hmem
    rcases h.waiting i f cb hold with ⟨x, hx, haddr⟩ | ⟨cp', htid, hold'⟩
    · by_cases hxkey : x.key = cp.tid
      · -- the message from its friend is in the log now
        obtain rfl := hsame x hx hxkey
        subst haddr
        obtain ⟨rfl, htid, -⟩ := hown hold
        refine .inr ⟨cp, htid, ?_⟩
        rw [hlog]
        exact (List.singleton_sublist.mpr hold).append ((List.nil_sublist _).cons_cons _)
      · exact .inl ⟨x, mem_removeEntry_of_ne hx (by simpa [hasTid] using hxkey), haddr⟩
    · exact .inr ⟨cp', htid, hold'.trans hsub⟩
  case once =>
    intro i
    rw [hcount]
    by_cases hi : e.addr = i
    · rw [← hi, hnever, if_pos rfl]
    · rw [if_neg hi]
      exact h.once i
  case gone =>
    intro i hi
    rw [hcount] at hi
    by_cases heq : e.addr = i
    · subst heq
      refine ⟨h.stored.addr_lt he, fun x hx haddr => (hleft x hx).2 ?_⟩
      rw [h.stored.rep.eq_of_addr (hleft x hx).1 he haddr]
      exact hkey
    · rw [if_neg heq] at hi
      obtain ⟨hlt, hout⟩ := h.gone i hi
      exact ⟨hlt, fun x hx => hout x (hleft x hx).1⟩
  case own =>
    intro i f cp' fn status reason data ctx hinv f' cb hmem
    have hold := hreg hmem
    rw [hlog, List.mem_append] at hinv
    rcases hinv with hinv | hinv
    · exact h.own i f cp' fn status reason data ctx hinv f' cb hold
    · have hnew : i = e.addr ∧ f = friendNumber ∧ cp' = cp ∧ fn = callback.callbackFunc ∧
          ctx = callback.callbackContext := by
        simp only [List.mem_cons, reduceCtorEq, InviteEvent.invoked.injEq, List.not_mem_nil,
          or_false, false_or] at hinv
        tauto
      obtain ⟨rfl, rfl, rfl, rfl, rfl⟩ := hnew
      obtain ⟨hf, htid, rfl⟩ := hown hold
      exact ⟨hf, htid, rfl, rfl⟩

theorem step {op : InviteOp Fn C} (hsep : op.Separate w) :
    ∃ w' es', inviteStep w op = some w' ∧ Tidy w' es' := by
  obtain ⟨w', es', hstep, hstored, hhappens⟩ := h.stored.step op
  refine ⟨w', es', hstep, ?_⟩
  cases hhappens with
  | refused hcheck => exact h
  | @registered call friendNumber t hcheck =>
    have hfree := hsep friendNumber hcheck
    rw [transactedCallbacksExist_rep h.stored.rep, Option.some.injEq, List.any_eq_false] at hfree
    rw [putEntry_of_find_none (List.find?_eq_none.mpr hfree)] at hstored ⊢
    exact h.register hstored
  | dropped hdrop => exact h.drop hstored
  | @answered friendNumber cp t e callback he hkey hcallback =>
    obtain ⟨t', hget⟩ := h.stored.get he
    rw [hkey] at hget
    exact h.answer he hkey hcallback (hsep rfl t' e.addr hget) rfl hstored

theorem run {ops : List (InviteOp Fn C)}
    (hsep : Along inviteStep (fun w op => op.Separate w) w ops) :
    ∃ w' es', exec inviteStep w ops = some w' ∧ Tidy w' es' := by
  induction ops generalizing w es with
  | nil => exact ⟨w, es, rfl, h⟩
  | cons op ops ih =>
    obtain ⟨w₁, es₁, hstep, htidy⟩ := h.step hsep.1
    obtain ⟨w', es', hexec, htidy'⟩ := ih htidy (hsep.2 w₁ hstep)
    exact ⟨w', es', exec_cons_eq_some.mpr ⟨w₁, hstep, hexec⟩, htidy'⟩

theorem routed : w.Routed := by
  intro tcb friendNumber callback hreg
  refine ⟨h.once tcb, ?_, ?_⟩
  · intro sender cp callbackFunc status reason data callbackContext hinv
    exact h.own _ _ _ _ _ _ _ _ hinv _ _ hreg
  · intro hwait
    have hheap := h.heap _ _ _ hreg
    refine ⟨?_, hheap⟩
    rcases h.waiting _ _ _ hreg with ⟨e, he, rfl⟩ | ⟨cp, htid, hsub⟩
    · rw [h.tid_eq he hreg]
      exact h.stored.get he
    · exact absurd hsub (hwait cp htid)

end Tidy

theorem tidy_new (mem : Transactions) : Tidy (Inviter.new mem : Inviter Fn C) [] where
  stored := stored_new mem
  heap := by simp [Inviter.new]
  unique := by simp [Inviter.new]
  waiting := by simp [Inviter.new]
  once := by simp [Inviter.new]
  gone := by simp [Inviter.new]
  own := by simp [Inviter.new]

/-- In every run that keeps invites apart, every answer reaches the invite it is for. -/
theorem invites_routed (mem : Transactions) {ops : List (InviteOp Fn C)}
    (hsep : Along inviteStep (fun w op => op.Separate w) (Inviter.new mem) ops) :
    ∃ w, exec inviteStep (Inviter.new mem) ops = some w ∧ w.Routed := by
  obtain ⟨w, es, hexec, htidy⟩ := (tidy_new mem).run hsep
  exact ⟨w, hexec, htidy.routed⟩

def zeroTransactions : Transactions :=
  ⟨0, 0, 0, fun _ => 0, fun _ => 0, fun _ => 0, fun _ => none, fun _ => none, fun _ => none,
    fun _ => 0⟩

def inviteOf (tid : BitVec 64) (friendNumber : BitVec 32) (callback : ℕ) : InviteOp ℕ ℕ :=
  .invite ⟨true, true, some friendNumber, true, true, tid, true, callback, callback, 0⟩

def answerOf (tid : BitVec 64) : InviteResponse := ⟨tid, 0, [], [1]⟩

theorem invites_routed_two :
    ∃ w, exec inviteStep (Inviter.new zeroTransactions)
      [inviteOf 7 1 0, inviteOf 8 2 1, .response 2 true (answerOf 8)] = some w ∧ w.Routed := by
  apply invites_routed
  refine ⟨fun _ _ => rfl, fun w hw => ?_⟩
  obtain rfl := Option.some.inj hw
  refine ⟨fun _ _ => rfl, fun w hw => ?_⟩
  obtain rfl := Option.some.inj hw
  refine ⟨fun _ t tcb hget => ?_, fun _ _ => trivial⟩
  have htcb : tcb = 1 := by
    have := congrArg (fun r => r.bind Prod.snd) hget
    exact (Option.some.inj this).symm
  exact ⟨⟨8, 1, 1⟩, by rw [htcb]; exact .tail _ (.head _)⟩

/-- A friend answers the invite of another one by its transaction id. -/
theorem not_invites_routed : ¬∀ (ops : List (InviteOp ℕ ℕ)) (w : Inviter ℕ ℕ),
    exec inviteStep (Inviter.new zeroTransactions) ops = some w → w.Routed := by
  intro h
  have hrun := h [inviteOf 7 1 0, .response 2 true (answerOf 7)] _ rfl
  have hown := (hrun 0 1 ⟨7, 0, 0⟩ (.head _)).2.1 2 (answerOf 7) 0 0 none (some [1]) 0
    (.tail _ (.tail _ (.head _)))
  exact absurd hown.1 (by decide)

/-- An invite that fails leaves the table of callbacks as it was. -/
def Inviter.Traceless (w : Inviter Fn C) (call : InviteCall Fn C) : Prop :=
  ∀ w' e, inviteFriend w call = some (w', .error e) → w'.tcallbacks = w.tcallbacks

theorem stored_exec {mem : Transactions} {ops : List (InviteOp Fn C)} {w : Inviter Fn C}
    (h : exec inviteStep (Inviter.new mem) ops = some w) : ∃ es, Stored w es := by
  apply exec_invariant _ ⟨[], stored_new mem⟩ h
  rintro s op s' ⟨es, hs⟩ hstep
  obtain ⟨es', hs', -⟩ := hs.happens hstep
  exact ⟨es', hs'⟩

/-- A callback that is registered is found in the table, where it was not before. -/
theorem Stored.register_ne {w : Inviter Fn C} {es : List (Entry (BitVec 64) ℕ ℕ)}
    (h : Stored w es) {call : InviteCall Fn C} {friendNumber : BitVec 32}
    (hcheck : call.check = .ok friendNumber) {w' : Inviter Fn C} {r : Except ℤ Unit}
    (hcall : inviteFriend w call = some (w', r)) : w'.tcallbacks ≠ w.tcallbacks := by
  have hrep : Rep cidOps 32 (w.tcallbacks.rcAlloc w.heap.length) es := h.rep.counters _ _
  obtain ⟨t, hput, hrep'⟩ :=
    transactedCallbacksPut_rep hrep (fun e he => (h.addr_lt he).ne) call.tid
  rw [inviteFriend, hcheck] at hcall
  dsimp only at hcall
  rw [hput, Option.map_some, Option.some.injEq, Prod.mk.injEq] at hcall
  have htable : w'.tcallbacks = t.deref w.heap.length := by rw [← hcall.1]
  have hrep'' : Rep cidOps 32 w'.tcallbacks
      (putEntry (hasTid call.tid) es ⟨w.heap.length, call.tid, w.heap.length⟩) := by
    rw [htable]
    exact hrep'.counters _ _
  intro heq
  obtain ⟨t₁, hnew, -⟩ := transactedCallbacksGet_rep hrep'' call.tid
  obtain ⟨t₂, hold, -⟩ := transactedCallbacksGet_rep h.rep call.tid
  rw [heq, hold, find?_putEntry_self (by simp [hasTid])] at hnew
  have hfound := (Prod.mk.inj (Option.some.inj hnew)).2
  obtain ⟨e, he, haddr⟩ := Option.map_eq_some_iff.mp hfound
  have hmem := List.mem_of_find?_eq_some he
  exact (h.addr_lt hmem).ne ((h.data e hmem).symm.trans haddr)

/-- In every state, an invite that fails leaves no trace exactly if it does not fail in `dht`. -/
theorem inviter_traceless_iff {mem : Transactions} {ops : List (InviteOp Fn C)} {w : Inviter Fn C}
    (h : exec inviteStep (Inviter.new mem) ops = some w) (call : InviteCall Fn C) :
    w.Traceless call ↔ ∀ friendNumber, call.check = .ok friendNumber → 0 ≤ call.dhtRc := by
  obtain ⟨es, hstored⟩ := stored_exec h
  cases hcheck : call.check with
  | error e =>
    refine iff_of_true (fun w' e' hcall => ?_) (fun f hf => by cases hf)
    rw [inviteFriend, hcheck] at hcall
    obtain rfl := (Prod.mk.inj (Option.some.inj hcall)).1
    rfl
  | ok friendNumber =>
    obtain ⟨t, hput, -⟩ := transactedCallbacksPut_rep
      (hstored.rep.counters w.tcallbacks.modCount (w.tcallbacks.rcAlloc w.heap.length).nrefs)
      (fun e he => (hstored.addr_lt he).ne) call.tid
    have hcall : ∃ w', inviteFriend w call =
        some (w', if call.dhtRc < 0 then .error call.dhtRc else .ok ()) := by
      rw [inviteFriend, hcheck]
      exact ⟨_, congrArg (Option.map _) hput⟩
    obtain ⟨w', hcall⟩ := hcall
    constructor
    · intro htraceless f _
      by_contra hneg
      rw [if_pos (not_le.mp hneg)] at hcall
      exact hstored.register_ne hcheck hcall (htraceless w' _ hcall)
    · intro hsent w'' e hcall'
      rw [if_neg (not_lt.mpr (hsent friendNumber rfl))] at hcall
      cases hcall.symm.trans hcall'

def twoInvites : List (InviteOp ℕ ℕ) :=
  [.invite ⟨true, true, some 1, true, true, 7, true, 3, 4, 0⟩,
    .invite ⟨true, true, some 2, true, true, 8, true, 5, 6, 0⟩]

/-- Two invites are under way; a third one fails before anything is registered, a fourth is sent. -/
theorem inviter_traceless_busy : ∃ w, exec inviteStep (Inviter.new zeroTransactions) twoInvites = some w ∧
    w.Traceless ⟨true, true, some 1, true, true, 9, false, 0, 0, -1⟩ ∧
      w.Traceless ⟨true, true, some 1, true, true, 9, true, 3, 4, 0⟩ := by
  have hsome : (exec inviteStep (Inviter.new zeroTransactions) twoInvites).isSome = true := rfl
  obtain ⟨w, hw⟩ := Option.isSome_iff_exists.mp hsome
  refine ⟨w, hw, ?_, ?_⟩
  · refine (inviter_traceless_iff hw _).mpr (fun f hf => ?_)
    cases hf
  · exact (inviter_traceless_iff hw _).mpr (fun _ _ => le_rfl)

/-- An invite that `dht` does not send, whose callback is then invoked for an answer. -/
theorem unsent_not_traceless :
    ¬(Inviter.new zeroTransactions).Traceless
        (⟨true, true, some 1, true, true, 7, true, 3, 4, -1⟩ : InviteCall ℕ ℕ) ∧
      ∃ w, exec inviteStep (Inviter.new zeroTransactions)
        [.invite ⟨true, true, some 1, true, true, 7, true, 3, 4, -1⟩,
          .response 1 true (answerOf 7)] = some w ∧
        .invoked 0 1 (answerOf 7) 3 0 none (some [1]) 4 ∈ w.log := by
  constructor
  · intro h
    have hfree : transactedCallbacksExist (Inviter.new zeroTransactions : Inviter ℕ ℕ).tcallbacks 7 =
        some false := rfl
    rw [← h _ _ rfl] at hfree
    cases hfree
  · exact ⟨_, rfl, .tail _ (.tail _ (.head _))⟩

end Carrier.Core
