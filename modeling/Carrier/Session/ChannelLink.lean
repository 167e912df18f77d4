import Carrier.Lib.Run
import Carrier.Session.ChannelCalls

/-! Two multiplex handlers joined by two queues: every packet reaches the incarnation it belongs
to as long as no id is given out again while something still refers to it. -/
namespace Carrier.Session
open Carrier.Lib Carrier.Common

/-- A handler, and the last incarnation of a channel under each of its ids. -/
structure Party where
  handler : MultiplexHandler
  inc : ℕ → ℕ

/-- Both sides with the packets under way to each of them. Incarnations are numbered in the order
they come into being, `pairs` holds those that one `Open` packet has joined, and `written` what
has been written on which. -/
structure ChannelLink where
  party : Side → Party
  queue : Side → List InFlight
  born : ℕ
  pairs : List (ℕ × ℕ)
  written : List (ℕ × Bytes)

inductive LinkOp where
  | openChannel (type : ChannelType) (cookie : Option Bytes) (timeout : ℤ)
  | closeChannel (id : ℕ)
  | writeChannel (id : ℕ) (data : Bytes)
  | pendChannel (id : ℕ)
  | resumeChannel (id : ℕ)
  | nextPacket

/-- A call on one side, at a time of its clock. -/
structure LinkAct where
  side : Side
  now : TimeVal
  op : LinkOp

namespace ChannelLink

def init (worker reliable : Side → Bool) : ChannelLink where
  party side := ⟨multiplexHandlerCreate (worker side) (reliable side), fun _ => 0⟩
  queue _ := []
  born := 0
  pairs := []
  written := []

def handler (s : ChannelLink) (side : Side) : MultiplexHandler := (s.party side).handler

def inc (s : ChannelLink) (side : Side) : ℕ → ℕ := (s.party side).inc

/-- The handler after a call, with the packets it has sent under way. -/
def finish (s : ChannelLink) (side : Side) (h : MultiplexHandler) (events : List MuxEvent) :
    ChannelLink :=
  { s with
    party := Function.update s.party side ⟨h, s.inc side⟩
    queue := Function.update s.queue side.other
      (s.queue side.other ++ sentPackets (s.inc side) events) }

def birth (s : ChannelLink) (side : Side) (id : ℕ) : ChannelLink :=
  { s with
    party := Function.update s.party side
      ⟨s.handler side, Function.update (s.inc side) id s.born⟩
    born := s.born + 1 }

/-- The incarnation that a packet of `sender` has opened. -/
def pair (s : ChannelLink) (x : ℕ) (sender : Option ℕ) : ChannelLink :=
  { s with pairs := (sender.map (x, ·)).toList ++ s.pairs }

/-- The packets that are left for `side`. -/
def dequeue (s : ChannelLink) (side : Side) (rest : List InFlight) : ChannelLink :=
  { s with queue := Function.update s.queue side rest }

def step (P : IntShift) (s : ChannelLink) (act : LinkAct) : Option ChannelLink :=
  let E := linkEnv P act.now
  let h := s.handler act.side
  match act.op with
  | .openChannel type cookie timeout =>
    (multiplexHandlerOpenChannel E h type cookie timeout).map (fun r =>
      let s := if 0 < r.result then s.birth act.side r.result.toNat else s
      s.finish act.side r.handler r.events)
  | .closeChannel id =>
    (multiplexHandlerCloseChannel E h id).map (fun r => s.finish act.side r.handler r.events)
  | .writeChannel id data =>
    let r := multiplexHandlerWriteChannel E h id data
    let s :=
      if id ≠ 0 ∧ 0 ≤ r.result then { s with written := (s.inc act.side id, data) :: s.written }
      else s
    some (s.finish act.side r.handler r.events)
  | .pendChannel id =>
    (multiplexHandlerPendChannel E h id).map (fun r => s.finish act.side r.handler r.events)
  | .resumeChannel id =>
    (multiplexHandlerResumeChannel E h id).map (fun r => s.finish act.side r.handler r.events)
  | .nextPacket =>
    match s.queue act.side with
    | [] => none
    | f :: rest =>
      (multiplexHandlerNotifyPacket E h f.packet).map (fun r =>
        let s := s.dequeue act.side rest
        let s := (openedChannel r.2).elim s (fun id =>
          (s.birth act.side id).pair s.born f.sender)
        s.finish act.side r.1 r.2)

def Paired (s : ChannelLink) (x y : ℕ) : Prop := (x, y) ∈ s.pairs ∨ (y, x) ∈ s.pairs

/-- Handling the next packet of `side` delivers data only to the incarnation paired with the one
they were written on, and its control packets change only the one paired with their sender. -/
def Isolated (P : IntShift) (s : ChannelLink) (side : Side) : Prop :=
  ∀ now f rest h' events, s.queue side = f :: rest →
    multiplexHandlerNotifyPacket (linkEnv P now) (s.handler side) f.packet = some (h', events) →
    (∀ id data, .channelData id data ∈ events →
      ∃ y ∈ f.sender, s.Paired (s.inc side id) y ∧ (y, data) ∈ s.written) ∧
    ∀ t ∈ controlTypes, f.packet.type = t.code →
      ∀ id, channelsGet h'.channels id ≠ channelsGet (s.handler side).channels id →
        ∃ y ∈ f.sender, s.Paired (s.inc side id) y

/-- Nothing refers to the id `c` of this side any more: no packet of the queue acts on a channel
that starts in status `st` under it, no channel of the other side has it as its remote id, and no
packet to the other side will give it to one there. -/
def Unreferenced (s : ChannelLink) (side : Side) (queue : List InFlight) (c : ℕ)
    (st : ChannelStatus) : Prop :=
  (∀ f ∈ queue, ¬f.packet.Acts c st) ∧
    (∀ ch ∈ (s.handler side.other).channels, ch.remoteId ≠ c) ∧
    (∀ f ∈ s.queue side.other, f.packet.kind = some .channelOpen →
      ((s.handler side.other).openType f.packet).isSome → f.packet.remoteChannelId ≠ c) ∧
    ∀ f ∈ s.queue side.other, f.packet.kind = some .channelOpenConfirmation →
      ((s.handler side.other).view f.packet.localChannelId).any (·.1 = .opening) →
        f.packet.remoteChannelId ≠ c

/-- The next packet asks for a channel that the handler will open. -/
def NextOpens (s : ChannelLink) (side : Side) : Prop :=
  ∃ f ∈ (s.queue side).head?, f.packet.kind = some .channelOpen ∧
    ((s.handler side).openType f.packet).isSome

/-- The call gives out no id that something still refers to. -/
def Fresh (s : ChannelLink) (act : LinkAct) : Prop :=
  let c := (idsHeapAlloc (s.handler act.side).channelIds).2
  match act.op with
  | .openChannel _ _ _ => 0 < c → s.Unreferenced act.side (s.queue act.side) c.toNat .opening
  | .nextPacket => s.NextOpens act.side → 0 < c →
      s.Unreferenced act.side (s.queue act.side).tail c.toNat .open
  | _ => True

/-- The link without the handlers. -/
def pairing (s : ChannelLink) : Pairing where
  view side := (s.handler side).view
  inc := s.inc
  queue := s.queue
  accepts side pb := ((s.handler side).openType pb).isSome
  pairs := s.pairs
  written := s.written

/-- The invariant of runs. -/
structure Inv (s : ChannelLink) : Prop where
  pairing : s.pairing.Inv
  heap : ∀ side, (s.handler side).HeapOk

variable {P : IntShift} {s s' : ChannelLink} {side : Side}

theorem init_inv (worker reliable : Side → Bool) : (init worker reliable).Inv := by
  refine ⟨⟨?_, fun _ _ => clean_nil, ?_, ?_, ?_⟩, fun _ => ⟨idsHeapInit_wf (by decide), rfl⟩⟩
  · intro side id st r hv
    cases hv
  all_goals
    intro side f hf
    cases hf

theorem finish_handler (s : ChannelLink) (side : Side) (h : MultiplexHandler)
    (events : List MuxEvent) :
    (s.finish side h events).handler = Function.update s.handler side h := by
  funext side'
  by_cases hs : side' = side
  · subst hs
    simp [finish, handler]
  · simp [finish, handler, hs]

theorem finish_inc (s : ChannelLink) (side : Side) (h : MultiplexHandler)
    (events : List MuxEvent) : (s.finish side h events).inc = s.inc := by
  funext side'
  by_cases hs : side' = side
  · subst hs
    simp [finish, inc]
  · simp [finish, inc, hs]

theorem finish_queue_same (s : ChannelLink) (side : Side) (h : MultiplexHandler)
    (events : List MuxEvent) : (s.finish side h events).queue side = s.queue side :=
  Function.update_of_ne (Side.ne_other side) _ _

theorem birth_handler (s : ChannelLink) (side : Side) (id : ℕ) :
    (s.birth side id).handler = s.handler := by
  funext side'
  by_cases hs : side' = side
  · subst hs
    simp [birth, handler]
  · simp [birth, handler, hs]

theorem birth_inc (s : ChannelLink) (side : Side) (id : ℕ) :
    (s.birth side id).inc =
      Function.update s.inc side (Function.update (s.inc side) id s.born) := by
  funext side'
  by_cases hs : side' = side
  · subst hs
    simp [birth, inc]
  · simp [birth, inc, hs]

theorem finish_heap (h : ∀ side, (s.handler side).HeapOk) {h' : MultiplexHandler} (hok : h'.HeapOk)
    (events : List MuxEvent) (side' : Side) : ((s.finish side h' events).handler side').HeapOk := by
  rw [finish_handler]
  by_cases hs : side' = side
  · subst hs
    rwa [Function.update_self]
  · rw [Function.update_of_ne hs]
    exact h side'

/-- A call shows in the view of its side, and in the packets it sends. -/
theorem finish_pairing {h : MultiplexHandler} (hsame : (s.handler side).SameStream h)
    (events : List MuxEvent) :
    (s.finish side h events).pairing =
      { s.pairing with
        view := Function.update s.pairing.view side h.view
        queue := Function.update s.queue side.other
          (s.queue side.other ++ sentPackets (s.inc side) events) } := by
  have hview : (fun side' => (Function.update s.handler side h side').view) =
      Function.update s.pairing.view side h.view := by
    funext side'
    by_cases hs : side' = side
    · subst hs
      rw [Function.update_self, Function.update_self]
    · rw [Function.update_of_ne hs, Function.update_of_ne hs]
      rfl
  have haccepts : (fun side' pb => ((Function.update s.handler side h side').openType pb).isSome) =
      fun side' pb => ((s.handler side').openType pb).isSome := by
    funext side' pb
    by_cases hs : side' = side
    · subst hs
      rw [Function.update_self, hsame.openType pb]
    · rw [Function.update_of_ne hs]
  unfold pairing
  rw [finish_handler, finish_inc, hview]
  congr 1
  funext side' pb
  exact congrArg (· = true) (congrFun (congrFun haccepts side') pb)

theorem finish_pairing_same {h : MultiplexHandler} (hsame : (s.handler side).SameStream h)
    {events : List MuxEvent} (hsent : sentPackets (s.inc side) events = [])
    (hview : h.view = (s.handler side).view) : (s.finish side h events).pairing = s.pairing := by
  have hself : Function.update s.pairing.view side (s.handler side).view = s.pairing.view :=
    Function.update_eq_self _ _
  rw [finish_pairing hsame, hsent, List.append_nil, Function.update_eq_self, hview, hself]
  rfl

/-- A call that sends nothing and changes one channel. -/
theorem finish_pairing_quiet {h : MultiplexHandler} (hsame : (s.handler side).SameStream h)
    {events : List MuxEvent} (hsent : sentPackets (s.inc side) events = []) {id : ℕ}
    {v : Option (ChannelStatus × ℕ)} (hview : h.view = Function.update (s.handler side).view id v) :
    (s.finish side h events).pairing = s.pairing.setView side id v := by
  rw [finish_pairing hsame, hsent, List.append_nil, Function.update_eq_self, hview]
  rfl

/-- A call that sends one packet and leaves the channels. -/
theorem finish_pairing_send {h : MultiplexHandler} (hsame : (s.handler side).SameStream h)
    {events : List MuxEvent} {f : InFlight} (hsent : sentPackets (s.inc side) events = [f])
    (hview : h.view = (s.handler side).view) :
    (s.finish side h events).pairing = s.pairing.send side f := by
  have hself : Function.update s.pairing.view side (s.handler side).view = s.pairing.view :=
    Function.update_eq_self _ _
  rw [finish_pairing hsame, hsent, hview, hself]
  rfl

/-- A call that sends one packet and changes one channel. -/
theorem finish_pairing_send_set {h : MultiplexHandler} (hsame : (s.handler side).SameStream h)
    {events : List MuxEvent} {f : InFlight} (hsent : sentPackets (s.inc side) events = [f])
    {id : ℕ} {v : Option (ChannelStatus × ℕ)}
    (hview : h.view = Function.update (s.handler side).view id v) :
    (s.finish side h events).pairing = (s.pairing.send side f).setView side id v := by
  rw [finish_pairing hsame, hsent, hview]
  rfl

/-- A call that opens a channel under a new incarnation and sends one packet. -/
theorem finish_pairing_birth {h : MultiplexHandler} (hsame : (s.handler side).SameStream h)
    {events : List MuxEvent} {f : InFlight} {c r : ℕ} {st : ChannelStatus}
    (hview : h.view = Function.update (s.handler side).view c (some (st, r)))
    (hsent : sentPackets (Function.update (s.inc side) c s.born) events = [f]) :
    ((s.birth side c).finish side h events).pairing =
      (s.pairing.birth side c st r s.born).send side f := by
  have hsame' : ((s.birth side c).handler side).SameStream h := by rwa [birth_handler]
  have hpairing : (s.birth side c).pairing = { s.pairing with
      inc := Function.update s.inc side (Function.update (s.inc side) c s.born) } := by
    unfold pairing
    rw [birth_handler, birth_inc]
    rfl
  have hinc : (s.birth side c).inc side = Function.update (s.inc side) c s.born := by
    rw [birth_inc, Function.update_self]
  rw [finish_pairing hsame', hinc, hsent, hpairing, hview]
  rfl

theorem kind_eq {t t' : PacketType} {o l r n : ℕ} {p : Bytes}
    (h : ProtocolBuffer.kind ⟨t.code, o, l, r, n, p⟩ = some t') : t = t' := by
  unfold ProtocolBuffer.kind at h
  split_ifs at h
  simpa using h

/-- Packets on a confirmed channel go to the incarnation it is paired with. -/
theorem sound_channel (h : s.pairing.Inv) {t : PacketType} (hopen : t ≠ .channelOpen)
    (hconf : t ≠ .channelOpenConfirmation) {cid rid : ℕ} {st : ChannelStatus}
    (hv : (s.handler side).view cid = some (st, rid)) (hrid : rid ≠ 0) {n : ℕ} {p : Bytes}
    (hdata : t = .channelData → (s.inc side cid, p) ∈ s.written) :
    s.pairing.Sound side ⟨⟨t.code, 0, rid, cid, n, p⟩, some (s.inc side cid)⟩ where
  mate d _ hacts := by
    obtain ⟨rfl, -, -⟩ := hacts
    exact ⟨_, rfl, (h.remote side cid st rid hv hrid).symm⟩
  opens hk := absurd (kind_eq hk) hopen
  confirms hk := absurd (kind_eq hk) hconf
  data hk y hy := by
    cases hy
    exact hdata (kind_eq hk)

theorem sound_zero (s : Pairing) (side : Side) {t : PacketType} (hopen : t ≠ .channelOpen) (n : ℕ)
    (p : Bytes) : s.Sound side ⟨⟨t.code, 0, 0, 0, n, p⟩, none⟩ where
  mate d _ hacts := by
    obtain ⟨hd, hne, -⟩ := hacts
    exact absurd hd.symm hne
  opens hk := absurd (kind_eq hk) hopen
  confirms _ hne := absurd rfl hne
  data _ _ hy := by cases hy

theorem step_closeChannel (h : s.Inv) {now : TimeVal} {id : ℕ}
    (hs : step P s ⟨side, now, .closeChannel id⟩ = some s') : s'.Inv := by
  obtain ⟨r, hr, rfl⟩ := Option.map_eq_some_iff.mp hs
  obtain ⟨hok, hsame, hcases⟩ := closeChannel_cases (h.heap side) hr
  refine ⟨?_, finish_heap h.heap hok _⟩
  rcases hcases with ⟨hh, hev⟩ | ⟨st, rid, hv, hid, hview, hev⟩
  · rw [finish_pairing_same hsame (by rw [hev]; rfl) (by rw [hh])]
    exact h.pairing
  · by_cases hrid : rid = 0
    · rw [finish_pairing_quiet hsame (by rw [hev, if_pos hrid]; rfl) hview]
      exact h.pairing.remove side id
    · have hsent : sentPackets (s.inc side) r.events =
          [⟨⟨PacketType.channelClose.code, 0, rid, id, 0, []⟩, some (s.inc side id)⟩] := by
        rw [hev, if_neg hrid]
        simp [sentPackets, hid]
      rw [finish_pairing_send_set hsame hsent hview]
      exact (h.pairing.send (sound_channel (t := .channelClose) h.pairing (by decide) (by decide)
        hv hrid nofun)).remove side id

/-- A packet on a channel, where data have been recorded as written. -/
theorem finish_sendOnChannel (h : s.Inv) {now : TimeVal} {id : ℕ} (hid : id ≠ 0) {t : PacketType}
    (hopen : t ≠ .channelOpen) (hconf : t ≠ .channelOpenConfirmation) {p : Bytes}
    {keeps : ℤ → Bool} {r : MuxCall}
    (hr : sendOnChannel (linkEnv P now) (s.handler side) id t p keeps = r)
    (hdata : t = .channelData → 0 ≤ r.result → (s.inc side id, p) ∈ s.written) :
    (s.finish side r.handler r.events).Inv := by
  obtain ⟨hok, hsame, hview, hcases⟩ := sendOnChannel_cases (h.heap side) hr
  refine ⟨?_, finish_heap h.heap hok _⟩
  rcases hcases with ⟨hev, -⟩ | ⟨st, rid, hv, hrid, hres, hev⟩
  · rw [finish_pairing_same hsame (by rw [hev]; rfl) hview]
    exact h.pairing
  · have hsent : sentPackets (s.inc side) r.events =
        [⟨⟨t.code, 0, rid, id, p.length % 2 ^ 16, p⟩, some (s.inc side id)⟩] := by
      rw [hev]
      simp [sentPackets, hid]
    rw [finish_pairing_send hsame hsent hview]
    exact h.pairing.send (sound_channel h.pairing hopen hconf hv hrid (fun ht => hdata ht hres))

theorem step_pendChannel (h : s.Inv) {now : TimeVal} {id : ℕ}
    (hs : step P s ⟨side, now, .pendChannel id⟩ = some s') : s'.Inv := by
  obtain ⟨r, hr, rfl⟩ := Option.map_eq_some_iff.mp hs
  unfold multiplexHandlerPendChannel at hr
  split_ifs at hr with hid
  exact finish_sendOnChannel h hid (by decide) (by decide) (Option.some.inj hr) nofun

theorem step_resumeChannel (h : s.Inv) {now : TimeVal} {id : ℕ}
    (hs : step P s ⟨side, now, .resumeChannel id⟩ = some s') : s'.Inv := by
  obtain ⟨r, hr, rfl⟩ := Option.map_eq_some_iff.mp hs
  unfold multiplexHandlerResumeChannel at hr
  split_ifs at hr with hid
  exact finish_sendOnChannel h hid (by decide) (by decide) (Option.some.inj hr) nofun

theorem step_writeChannel (h : s.Inv) {now : TimeVal} {id : ℕ} {data : Bytes}
    (hs : step P s ⟨side, now, .writeChannel id data⟩ = some s') : s'.Inv := by
  cases Option.some.inj hs
  by_cases hid : id = 0
  · subst hid
    dsimp only
    rw [if_neg (by simp), multiplexHandlerWriteChannel, if_pos rfl]
    simp only [sendPacket_linkEnv, written_linkEnv]
    refine ⟨?_, finish_heap h.heap (h.heap side) _⟩
    have hsent : sentPackets (s.inc side) [.send ⟨PacketType.channelData.code, 0, 0, 0,
        data.length % 2 ^ 16, data⟩] =
        [⟨⟨PacketType.channelData.code, 0, 0, 0, data.length % 2 ^ 16, data⟩, none⟩] := rfl
    rw [finish_pairing_send ⟨rfl, rfl⟩ hsent rfl]
    exact h.pairing.send (sound_zero _ _ (by decide) _ _)
  · dsimp only
    rw [multiplexHandlerWriteChannel, if_neg hid]
    split_ifs with hres
    · have hw : Inv { s with written := (s.inc side id, data) :: s.written } :=
        ⟨h.pairing.write (s.inc side id) data, h.heap⟩
      exact finish_sendOnChannel hw hid (by decide) (by decide) rfl
        (fun _ _ => List.mem_cons_self)
    · exact finish_sendOnChannel h hid (by decide) (by decide) rfl
        (fun _ hnonneg => absurd ⟨hid, hnonneg⟩ hres)

theorem Unreferenced.pairing {c : ℕ} {st : ChannelStatus} {queue : List InFlight}
    (h : s.Unreferenced side queue c st) :
    Pairing.Unreferenced { s.pairing with queue := Function.update s.queue side queue } side c
      st where
  quiet f hf := by
    have hq : Function.update s.queue side queue side = queue := Function.update_self _ _ _
    exact h.1 f (hq ▸ hf)
  remote id st' hv := by
    obtain ⟨ch, hget, hch⟩ := Option.map_eq_some_iff.mp hv
    exact h.2.1 ch (List.mem_of_find?_eq_some hget) (congrArg Prod.snd hch)
  opens f hf := by
    have hq : Function.update s.queue side queue side.other = s.queue side.other :=
      Function.update_of_ne (Side.other_ne side) _ _
    exact h.2.2.1 f (hq ▸ hf)
  confirms f hf hkind hopening := by
    have hq : Function.update s.queue side queue side.other = s.queue side.other :=
      Function.update_of_ne (Side.other_ne side) _ _
    obtain ⟨r, hr⟩ := hopening
    refine h.2.2.2 f (hq ▸ hf) hkind ?_
    have hv : (s.handler side.other).view f.packet.localChannelId = some (.opening, r) := hr
    rw [hv]
    rfl

theorem step_openChannel (h : s.Inv) {now : TimeVal} {type : ChannelType} {cookie : Option Bytes}
    {timeout : ℤ} (hfresh : s.Fresh ⟨side, now, .openChannel type cookie timeout⟩)
    (hs : step P s ⟨side, now, .openChannel type cookie timeout⟩ = some s') : s'.Inv := by
  obtain ⟨r, hr, rfl⟩ := Option.map_eq_some_iff.mp hs
  obtain ⟨hok, hsame, hcases⟩ := openChannel_cases (h.heap side) hr
  rcases hcases with ⟨-, hneg, hev, hview⟩ | ⟨c, payload, hc, halloc, hres, hview, hev⟩
  · dsimp only
    rw [if_neg (by omega)]
    refine ⟨?_, finish_heap h.heap hok _⟩
    rw [finish_pairing_same hsame (by rw [hev]; rfl) hview]
    exact h.pairing
  · dsimp only
    rw [if_pos (by omega), hres, Int.toNat_natCast]
    refine ⟨?_, finish_heap (fun side' => by rw [birth_handler]; exact h.heap side') hok _⟩
    have hsent : sentPackets (Function.update (s.inc side) c s.born) r.events =
        [⟨⟨PacketType.channelOpen.code, type.code, 0, c, payload.length % 2 ^ 16, payload⟩,
          some s.born⟩] := by
      rw [hev]
      simp [sentPackets, hc]
    rw [finish_pairing_birth hsame hview hsent]
    have hfree : s.pairing.Unreferenced side c .opening := by
      have hun := hfresh (by dsimp only; omega)
      dsimp only at hun
      rw [halloc, Int.toNat_natCast] at hun
      have hp := hun.pairing
      rwa [Function.update_eq_self] at hp
    refine (h.pairing.birth hc hfree (fun hne => absurd rfl hne)).send ?_
    refine ⟨?_, fun _ => ?_, fun hk => absurd (kind_eq hk) (by decide),
      fun hk => absurd (kind_eq hk) (by decide)⟩
    · rintro d st ⟨rfl, hne, -⟩
      exact absurd rfl hne
    · rw [Pairing.birth_inc_same]

/-- A packet that acts on no channel only leaves the queue. -/
theorem pop_of_not_acts {s : Pairing} {f : InFlight} {rest : List InFlight}
    (hacts : ∀ d st, ¬f.packet.Acts d st) :
    s.pop side f rest = { s with queue := Function.update s.queue side rest } := by
  have hafter (v : Option (ChannelStatus × ℕ)) : f.packet.after f.packet.localChannelId v = v := by
    cases v with
    | none => rfl
    | some v => exact ProtocolBuffer.after_of_not_acts (hacts _ _) v.2
  unfold Pairing.pop Pairing.setView
  rw [hafter, Function.update_eq_self, Function.update_eq_self]

/-- A new channel for a peer's channel `r`: the two are paired, and the peer is told. -/
theorem pairing_accept {s : Pairing} (h : s.Inv) {c r x : ℕ} (hc : c ≠ 0)
    (hfree : s.Unreferenced side c .open) :
    (((s.pair x (s.inc side.other r)).birth side c .open r x).send side
      ⟨⟨PacketType.channelOpenConfirmation.code, 0, r, c, 0, []⟩, some x⟩).Inv := by
  have hfree' : (s.pair x (s.inc side.other r)).Unreferenced side c .open :=
    ⟨hfree.quiet, hfree.remote, hfree.opens, hfree.confirms⟩
  refine ((h.pair x _).birth hc hfree' (fun _ => .inl List.mem_cons_self)).send ?_
  refine ⟨?_, fun hk => absurd (kind_eq hk) (by decide), fun _ _ => ?_,
    fun hk => absurd (kind_eq hk) (by decide)⟩
  · rintro d st ⟨rfl, -, -⟩
    refine ⟨x, rfl, .inr ?_⟩
    rw [Pairing.birth_inc_of_ne (fun hs => absurd hs (Side.other_ne side))]
    exact List.mem_cons_self
  · rw [Pairing.birth_inc_same]

theorem step_nextPacket (h : s.Inv) {now : TimeVal} (hfresh : s.Fresh ⟨side, now, .nextPacket⟩)
    (hs : step P s ⟨side, now, .nextPacket⟩ = some s') : s'.Inv := by
  unfold step at hs
  dsimp only at hs
  split at hs
  · cases hs
  next f rest hq =>
  obtain ⟨⟨h', events⟩, hr, rfl⟩ := Option.map_eq_some_iff.mp hs
  obtain ⟨hok, hsame, hcases⟩ := notifyPacket_cases (h.heap side) hr
  have hpop : (s.pairing.pop side f rest).Inv := h.pairing.pop hq
  have hheap : ∀ side', ((s.dequeue side rest).handler side').HeapOk := h.heap
  dsimp only
  rcases hcases with hh | ⟨hkind, hview, hev⟩ | ⟨hkind, hsome, c, cookie, hc, halloc, hview, hev⟩
  · rw [hh.opened, Option.elim_none]
    refine ⟨?_, finish_heap hheap hok events⟩
    have hsame' : ((s.dequeue side rest).handler side).SameStream h' := hsame
    rw [finish_pairing_quiet hsame' (hh.sent _) hh.view]
    exact hpop
  all_goals
    have hquiet : ∀ d st, ¬f.packet.Acts d st := fun d st hacts => by
      have := hacts.reacts hkind
      cases this
    rw [pop_of_not_acts hquiet] at hpop
    have hinv : (s.dequeue side rest).pairing.Inv := hpop
    have hsame' : ((s.dequeue side rest).handler side).SameStream h' := hsame
  · have hnone : openedChannel events = none := by rw [hev]; rfl
    rw [hnone, Option.elim_none]
    refine ⟨?_, finish_heap hheap hok events⟩
    have hsent : sentPackets ((s.dequeue side rest).inc side) events =
        [⟨⟨PacketType.channelOpenConfirmation.code, 0, 0, 0, 0, []⟩, none⟩] := by
      rw [hev]
      rfl
    rw [finish_pairing_send hsame' hsent hview]
    exact hinv.send (sound_zero _ _ (by decide) _ _)
  · have hopened : openedChannel events = some c := by rw [hev]; rfl
    have hsender : f.sender = some (s.inc side.other f.packet.remoteChannelId) :=
      h.pairing.opens side f (by rw [show s.pairing.queue side = _ from hq]; exact List.mem_cons_self)
        hkind hsome
    rw [hopened, Option.elim_some, hsender]
    set y := s.inc side.other f.packet.remoteChannelId
    -- The pair is made before the birth: the two do not depend on each other.
    have hcomm : ((s.dequeue side rest).birth side c).pair (s.dequeue side rest).born (some y) =
        ((s.dequeue side rest).pair s.born (some y)).birth side c := rfl
    have hsent : sentPackets (Function.update (((s.dequeue side rest).pair s.born (some y)).inc side)
        c s.born) events = [⟨⟨PacketType.channelOpenConfirmation.code, 0,
          f.packet.remoteChannelId, c, 0, []⟩, some s.born⟩] := by
      rw [hev]
      simp [sentPackets, hc]
    have hfree : (s.dequeue side rest).pairing.Unreferenced side c .open := by
      have hun := hfresh ⟨f, by rw [hq]; rfl, hkind, hsome⟩ (by dsimp only; omega)
      dsimp only at hun
      rw [halloc, Int.toNat_natCast, hq, List.tail_cons] at hun
      exact hun.pairing
    rw [hcomm]
    refine ⟨?_, finish_heap (fun side' => by rw [birth_handler]; exact h.heap side') hok events⟩
    rw [finish_pairing_birth (s := (s.dequeue side rest).pair s.born (some y)) hsame hview hsent]
    exact pairing_accept hinv hc hfree

theorem step_inv (h : s.Inv) {act : LinkAct} (hfresh : s.Fresh act)
    (hs : step P s act = some s') : s'.Inv := by
  obtain ⟨side, now, op⟩ := act
  cases op with
  | openChannel type cookie timeout => exact step_openChannel h hfresh hs
  | closeChannel id => exact step_closeChannel h hs
  | writeChannel id data => exact step_writeChannel h hs
  | pendChannel id => exact step_pendChannel h hs
  | resumeChannel id => exact step_resumeChannel h hs
  | nextPacket => exact step_nextPacket h hfresh hs

/-- A packet that acts on a channel comes from the incarnation paired with it. -/
theorem Inv.mate (h : s.Inv) {f : InFlight} {rest : List InFlight} (hq : s.queue side = f :: rest)
    {id r : ℕ} {st : ChannelStatus} (hv : (s.handler side).view id = some (st, r))
    (hacts : f.packet.Acts id st) : ∃ y ∈ f.sender, s.Paired (s.inc side id) y := by
  have hclean := h.pairing.clean side id
  rw [show s.pairing.view side id = _ from hv, show s.pairing.queue side = _ from hq] at hclean
  exact (clean_cons.mp hclean).1 hacts

theorem Inv.isolated (h : s.Inv) (P : IntShift) (side : Side) : s.Isolated P side := by
  intro now f rest h' events hq hr
  obtain ⟨-, -, hcases⟩ := notifyPacket_cases (h.heap side) hr
  rcases hcases with hh | ⟨hkind, -, rfl⟩ | ⟨hkind, -, c, cookie, -, -, -, rfl⟩
  · refine ⟨fun id data hmem => ?_, fun t ht htype id hne => ?_⟩
    · obtain ⟨-, hpay, hkind, st, r, hv, hacts⟩ := hh.data id data hmem
      obtain ⟨y, hy, hpaired⟩ := h.mate hq hv hacts
      refine ⟨y, hy, hpaired, ?_⟩
      rw [hpay]
      exact h.pairing.data side f
        (by rw [show s.pairing.queue side = _ from hq]; exact List.mem_cons_self) hkind y hy
    · obtain ⟨st, r, hv, hacts⟩ := hh.change t ht htype id hne
      exact h.mate hq hv hacts
  all_goals
    refine ⟨fun id data hmem => by simp at hmem, fun t ht htype => ?_⟩
    rw [ProtocolBuffer.kind, htype, PacketType.ofCode_code] at hkind
    split_ifs at hkind
    cases hkind
    exact absurd ht (by decide)

/-- Channels stay isolated along every run that gives out no id that something still refers to. -/
theorem exec_isolated (P : IntShift) (worker reliable : Side → Bool) {acts : List LinkAct}
    {s : ChannelLink} (hfresh : Along (step P) Fresh (init worker reliable) acts)
    (h : exec (step P) (init worker reliable) acts = some s) (side : Side) : s.Isolated P side :=
  (exec_invariant_along (fun _ _ _ hI hC hs => step_inv hI hC hs) (init_inv worker reliable) hfresh
    h).isolated P side

instance (s : ChannelLink) (side : Side) (queue : List InFlight) (c : ℕ) (st : ChannelStatus) :
    Decidable (s.Unreferenced side queue c st) := inferInstanceAs (Decidable (_ ∧ _ ∧ _ ∧ _))

instance (s : ChannelLink) (side : Side) : Decidable (s.NextOpens side) :=
  inferInstanceAs (Decidable (∃ f ∈ _, _ ∧ _))

instance (s : ChannelLink) : ∀ act, Decidable (s.Fresh act)
  | ⟨_, _, .openChannel _ _ _⟩ => inferInstanceAs (Decidable (_ → _))
  | ⟨_, _, .nextPacket⟩ => inferInstanceAs (Decidable (_ → _ → _))
  | ⟨_, _, .closeChannel _⟩ => isTrue trivial
  | ⟨_, _, .writeChannel _ _⟩ => isTrue trivial
  | ⟨_, _, .pendChannel _⟩ => isTrue trivial
  | ⟨_, _, .resumeChannel _⟩ => isTrue trivial

/-- A reliable stream without port forwarding, on both sides. -/
def plainLink : ChannelLink := init (fun _ => false) (fun _ => true)

/-- A call at the start of the epoch. -/
def act (side : Side) (op : LinkOp) : LinkAct := ⟨side, ⟨0, 0⟩, op⟩

/-- A channel is opened, confirmed and written to. -/
theorem exec_isolated_written :
    ∃ s, exec (step .modWidth) plainLink [act .a (.openChannel .user none 0), act .b .nextPacket,
        act .a .nextPacket, act .a (.writeChannel 1 [104, 105])] = some s ∧
      s.Isolated .modWidth .b := by
  obtain ⟨s, hs⟩ := Option.isSome_iff_exists.mp (show (exec (step .modWidth) plainLink
    [act .a (.openChannel .user none 0), act .b .nextPacket, act .a .nextPacket,
      act .a (.writeChannel 1 [104, 105])]).isSome by decide +kernel)
  exact ⟨s, hs, exec_isolated .modWidth _ _ (by decide +kernel) hs .b⟩

/-- An open of a user channel, when there is an id. -/
theorem openChannel_user {h : MultiplexHandler} (hok : h.HeapOk) (P : IntShift) (now : TimeVal)
    {c : ℕ} (halloc : (idsHeapAlloc h.channelIds).2 = c) :
    ∃ r, multiplexHandlerOpenChannel (linkEnv P now) h .user none 0 = some r ∧
      r.handler.channelIds = (idsHeapAlloc h.channelIds).1 ∧ r.result = c ∧ c ≠ 0 ∧
      r.handler.HeapOk ∧ r.handler.view = Function.update h.view c (some (.opening, 0)) := by
  obtain ⟨r, hr, hids⟩ : ∃ r,
      multiplexHandlerOpenChannel (linkEnv P now) h .user none 0 = some r ∧
        r.handler.channelIds = (idsHeapAlloc h.channelIds).1 := by
    unfold multiplexHandlerOpenChannel
    rw [if_neg (by simp)]
    dsimp only
    simp only [halloc, sendPacket_linkEnv, written_linkEnv]
    rw [if_neg (by omega), if_neg (by omega)]
    exact ⟨_, rfl, rfl⟩
  obtain ⟨hok', -, ⟨hnone, -⟩ | ⟨c', -, hc', halloc', hres, hview, -⟩⟩ := openChannel_cases hok hr
  · rw [halloc] at hnone
    omega
  · obtain rfl : c = c' := by
      rw [halloc] at halloc'
      omega
    exact ⟨r, hr, hids, hres, hc', hok', hview⟩

def openA : LinkAct := act .a (.openChannel .user none 0)

/-- An open by side `a` while the id behind the latest one is free. -/
theorem step_openA (hok : (s.handler .a).HeapOk) (P : IntShift) {p : ℕ}
    (hp : ((s.handler .a).channelIds.latestIndex + 1).toNat % maxChannelId = p)
    (hclear : (s.handler .a).channelIds.bitsetIds.isSet p = false) :
    ∃ s', step P s openA = some s' ∧ (s'.handler .a).HeapOk ∧
      (s'.handler .a).channelIds = { (s.handler .a).channelIds with
        bitsetIds := (bitsetSet (s.handler .a).channelIds.bitsetIds p).1, latestIndex := p } ∧
      (s'.handler .a).view (p + 1) = some (.opening, 0) ∧ s'.inc .a (p + 1) = s.born ∧
      s'.queue .a = s.queue .a ∧ s'.pairs = s.pairs ∧ s'.born = s.born + 1 := by
  have halloc := idsHeapAlloc_next hok.1 (by rw [hok.2]; exact hp) hclear
  obtain ⟨r, hr, hids, hres, hc, hok', hview⟩ := openChannel_user hok P ⟨0, 0⟩ (c := p + 1)
    (by rw [halloc]; push_cast; rfl)
  have hstep : step P s openA = some ((s.birth .a (p + 1)).finish .a r.handler r.events) := by
    have hpos : 0 < r.result := by omega
    simp only [step, openA, act, hr, Option.map_some]
    rw [if_pos hpos, hres, Int.toNat_natCast]
  refine ⟨_, hstep, ?_⟩
  rw [finish_handler, Function.update_self, finish_inc, birth_inc, Function.update_self,
    Function.update_self]
  have hqueue : ((s.birth .a (p + 1)).finish .a r.handler r.events).queue .a = s.queue .a :=
    finish_queue_same _ _ _ _
  exact ⟨hok', by rw [hids, halloc], by rw [hview, Function.update_self], rfl, hqueue, rfl, rfl⟩

/-- Side `a` has given out the ids up to `k + 1`, and a confirmation is under way to it whose
sender is paired with a channel that `a` has closed long ago. -/
structure Refilled (s : ChannelLink) (k : ℕ) : Prop where
  heap : (s.handler .a).HeapOk
  latest : (s.handler .a).channelIds.latestIndex = k
  clear : ∀ j, j = 0 ∨ k < j → (s.handler .a).channelIds.bitsetIds.isSet j = false
  queue : s.queue .a = [⟨⟨PacketType.channelOpenConfirmation.code, 0, 1, 1, 0, []⟩, some 1⟩]
  pairs : s.pairs = [(1, 0)]
  born : 2 ≤ s.born

theorem Refilled.openA {k : ℕ} (h : s.Refilled k) (hk : k + 1 < maxChannelId) (P : IntShift) :
    ∃ s', step P s openA = some s' ∧ s'.Refilled (k + 1) := by
  have hp : ((s.handler .a).channelIds.latestIndex + 1).toNat % maxChannelId = k + 1 := by
    rw [h.latest, show ((k : ℤ) + 1).toNat = k + 1 by omega, Nat.mod_eq_of_lt hk]
  obtain ⟨s', hs, hok, hids, -, -, hqueue, hpairs, hborn⟩ :=
    step_openA h.heap P hp (h.clear _ (.inr (by omega)))
  refine ⟨s', hs, hok, by rw [hids], ?_, hqueue.trans h.queue, hpairs.trans h.pairs, ?_⟩
  · intro j hj
    have hlt : k + 1 < (s.handler .a).channelIds.bitsetIds.size := by
      rw [h.heap.1.size_eq, h.heap.2]
      exact hk
    rw [hids, bitsetSet_isSet _ hlt, h.clear j (by omega), Bool.or_false]
    exact decide_eq_false (by omega)
  · have := h.born
    omega

theorem Refilled.exec {k : ℕ} (h : s.Refilled k) (P : IntShift) (n : ℕ)
    (hn : k + n < maxChannelId) :
    ∃ s', Lib.exec (ChannelLink.step P) s (List.replicate n ChannelLink.openA) = some s' ∧
      s'.Refilled (k + n) := by
  induction n generalizing k s with
  | zero => exact ⟨s, rfl, h⟩
  | succ n ih =>
    obtain ⟨m, hm, hk⟩ := h.openA (by omega) P
    obtain ⟨s', hs', hn'⟩ := ih hk (by omega)
    rw [List.replicate_succ]
    exact ⟨s', exec_cons_eq_some.mpr ⟨m, hm, hs'⟩, by rwa [show k + (n + 1) = k + 1 + n by omega]⟩

/-- With the last id given out, the next one is 1 again, and the old confirmation is handled by
the new channel. -/
theorem Refilled.not_isolated (h : s.Refilled (maxChannelId - 1)) (P : IntShift) :
    ∃ s', ChannelLink.step P s ChannelLink.openA = some s' ∧ ¬s'.Isolated P .a := by
  have hp : ((s.handler .a).channelIds.latestIndex + 1).toNat % maxChannelId = 0 := by
    rw [h.latest]
    decide
  obtain ⟨s', hs, -, -, hview, hinc, hqueue, hpairs, -⟩ :=
    step_openA h.heap P hp (h.clear 0 (.inl rfl))
  refine ⟨s', hs, fun hiso => ?_⟩
  obtain ⟨ch, hget, hch⟩ := Option.map_eq_some_iff.mp hview
  have hst : ch.status = .opening := congrArg Prod.fst hch
  let ch' := updateRemoteTimestamp (linkEnv P ⟨0, 0⟩) { ch with status := .open, remoteId := 1 }
  have hnotify : multiplexHandlerNotifyPacket (linkEnv P ⟨0, 0⟩) (s'.handler .a)
      ⟨PacketType.channelOpenConfirmation.code, 0, 1, 1, 0, []⟩ =
        some ((s'.handler .a).set ch', [.channelOpened ch.id]) := by
    simp [multiplexHandlerNotifyPacket, notifyChannel, PacketType.code, PacketType.ofCode, hget, hst,
      ch']
  have hne : channelsGet ((s'.handler .a).set ch').channels 1 ≠
      channelsGet (s'.handler .a).channels 1 := by
    have hid : 1 = ch'.id := (channelsGet_id hget).symm
    rw [MultiplexHandler.set, channelsGet_set, if_pos hid, hget, Option.map_some]
    intro heq
    have hopen := congrArg Channel.status (Option.some.inj heq)
    rw [hst] at hopen
    cases hopen
  obtain ⟨y, hy, hpaired⟩ := (hiso ⟨0, 0⟩ _ [] _ _ (hqueue.trans h.queue) hnotify).2
    .channelOpenConfirmation (by decide) rfl 1 hne
  cases hy
  rw [hinc, Paired, hpairs, h.pairs] at hpaired
  have hborn := h.born
  simp at hpaired
  omega

theorem refilled_zero : ∃ s, exec (step .modWidth) plainLink
    [openA, act .a (.closeChannel 1), act .b .nextPacket] = some s ∧ s.Refilled 0 := by
  have hrun : (exec (step .modWidth) plainLink
      [openA, act .a (.closeChannel 1), act .b .nextPacket]).any (fun s =>
        decide ((s.handler .a).channelIds.latestIndex = 0 ∧
          (s.handler .a).channelIds.maxIndex = maxChannelId ∧
          (s.handler .a).channelIds.bitsetIds.size = maxChannelId ∧
          (s.handler .a).channelIds.bitsetIds.bits = List.replicate 32 0#64 ∧
          s.queue .a = [⟨⟨PacketType.channelOpenConfirmation.code, 0, 1, 1, 0, []⟩, some 1⟩] ∧
          s.pairs = [(1, 0)] ∧ s.born = 2)) = true := by
    decide +kernel
  obtain ⟨s, hs, heq⟩ := (Option.any_eq_true _ _).mp hrun
  obtain ⟨hlatest, hmax, hsize, hbits, hqueue, hpairs, hborn⟩ := of_decide_eq_true heq
  have hwf : (s.handler .a).channelIds.WF :=
    ⟨by rw [hmax]; decide, hsize.trans hmax.symm, by omega⟩
  refine ⟨s, hs, ⟨hwf, hmax⟩, hlatest, fun j _ => ?_, hqueue, hpairs, by omega⟩
  rw [Bitset.isSet, hbits, packedBit_replicate_zero]

/-- A channel is closed before its confirmation comes, which is not told to the other side. The
confirmation then reaches a later channel under the same id. -/
theorem exec_stale_confirmation :
    ∃ s, exec (step .modWidth) plainLink
        ([openA, act .a (.closeChannel 1), act .b .nextPacket] ++ List.replicate 2048 openA) =
          some s ∧ ¬s.Isolated .modWidth .a := by
  obtain ⟨s₀, h₀, hr₀⟩ := refilled_zero
  obtain ⟨s₁, h₁, hr₁⟩ := hr₀.exec .modWidth 2047 (by decide)
  obtain ⟨s₂, h₂, hno⟩ := Refilled.not_isolated hr₁ .modWidth
  refine ⟨s₂, exec_append_eq_some.mpr ⟨s₀, h₀, ?_⟩, hno⟩
  rw [show 2048 = 2047 + 1 from rfl, List.replicate_succ']
  exact exec_append_eq_some.mpr ⟨s₁, h₁, exec_cons_eq_some.mpr ⟨s₂, h₂, rfl⟩⟩

end ChannelLink

end Carrier.Session
