import Carrier.Session.Multiplex

/-! Two tables of channels and the packets between them, with the incarnations of each id told
apart: which packets are for the incarnation they reach. -/
namespace Carrier.Session
open Carrier.Lib

/-- The type of a packet that passes the length check. -/
def ProtocolBuffer.kind (pb : ProtocolBuffer) : Option PacketType :=
  if pb.payload.length = pb.payloadLen then PacketType.ofCode pb.type else none

/-- The packet has an effect on a channel in this status. -/
def ChannelStatus.reacts : ChannelStatus → PacketType → Bool
  | _, .channelOpen => false
  | st, .channelOpenConfirmation => st = .opening
  | st, .channelData => st = .open ∨ st = .pending
  | _, .channelKeepAlive => false
  | st, .channelPending => st = .open
  | st, .channelResume => st = .pending
  | _, .channelClose => true

/-- Status and remote id of a channel after a packet it reacts to, `none` if it is closed. -/
def afterPacket (st : ChannelStatus) (remoteId : ℕ) (t : PacketType) (src : ℕ) :
    Option (ChannelStatus × ℕ) :=
  match t with
  | .channelOpenConfirmation => if src = 0 then none else some (.open, src)
  | .channelPending => some (.pending, remoteId)
  | .channelResume => some (.open, remoteId)
  | .channelClose => none
  | _ => some (st, remoteId)

namespace ProtocolBuffer

/-- The packet has an effect on the channel `d`, in this status. -/
def Acts (pb : ProtocolBuffer) (d : ℕ) (st : ChannelStatus) : Prop :=
  pb.localChannelId = d ∧ d ≠ 0 ∧ ∃ t ∈ pb.kind, st.reacts t = true

instance (pb : ProtocolBuffer) (d : ℕ) (st : ChannelStatus) : Decidable (pb.Acts d st) :=
  inferInstanceAs (Decidable (_ ∧ _ ∧ _))

/-- The channel `d` once the packet has been handled. -/
def after (pb : ProtocolBuffer) (d : ℕ) : Option (ChannelStatus × ℕ) → Option (ChannelStatus × ℕ)
  | none => none
  | some (st, r) =>
    if pb.Acts d st then pb.kind.bind (fun t => afterPacket st r t pb.remoteChannelId)
    else some (st, r)

theorem after_of_not_acts {pb : ProtocolBuffer} {d : ℕ} {st : ChannelStatus} (h : ¬pb.Acts d st)
    (r : ℕ) : pb.after d (some (st, r)) = some (st, r) := if_neg h

theorem after_of_acts {pb : ProtocolBuffer} {d : ℕ} {st : ChannelStatus} {t : PacketType}
    (h : pb.Acts d st) (ht : pb.kind = some t) (r : ℕ) :
    pb.after d (some (st, r)) = afterPacket st r t pb.remoteChannelId := by
  rw [after, if_pos h, ht, Option.bind_some]

theorem Acts.reacts {pb : ProtocolBuffer} {d : ℕ} {st : ChannelStatus} {t : PacketType}
    (h : pb.Acts d st) (ht : pb.kind = some t) : st.reacts t = true := by
  obtain ⟨-, -, t', ht', hreacts⟩ := h
  obtain rfl := Option.some.inj (ht.symm.trans ht')
  exact hreacts

theorem after_opening {pb : ProtocolBuffer} {d r : ℕ} {v : Option (ChannelStatus × ℕ)}
    (h : pb.after d v = some (.opening, r)) : ∃ r', v = some (.opening, r') := by
  match v with
  | none => cases h
  | some (st, r') =>
    by_cases hacts : pb.Acts d st
    · obtain ⟨t, ht, -⟩ := hacts.2.2
      have hreacts := hacts.reacts ht
      rw [after_of_acts hacts ht] at h
      cases t <;> simp only [afterPacket, ChannelStatus.reacts] at h hreacts
      case channelOpenConfirmation => split_ifs at h; cases h
      all_goals cases h
      · exact ⟨_, rfl⟩
      · exact ⟨_, rfl⟩
      · cases hreacts
    · rw [after_of_not_acts hacts] at h
      cases h
      exact ⟨_, rfl⟩

end ProtocolBuffer

/-- A packet under way, and the incarnation of the channel it was sent from. -/
structure InFlight where
  packet : ProtocolBuffer
  sender : Option ℕ
  deriving DecidableEq

/-- Every packet of the queue that will have an effect on the channel `d` comes from a `good`
incarnation. The state of the channel is followed along the queue. -/
def Clean (good : Option ℕ → Prop) (d : ℕ) : Option (ChannelStatus × ℕ) → List InFlight → Prop
  | none, _ => True
  | some _, [] => True
  | some (st, r), f :: q =>
    (f.packet.Acts d st → good f.sender) ∧ Clean good d (f.packet.after d (some (st, r))) q

section Clean

variable {good good' : Option ℕ → Prop} {d : ℕ} {v : Option (ChannelStatus × ℕ)}
  {q : List InFlight} {f : InFlight}

@[simp] theorem clean_none : Clean good d none q := by unfold Clean; trivial

@[simp] theorem clean_nil : Clean good d v [] := by
  match v with
  | none => exact clean_none
  | some _ => unfold Clean; trivial

theorem clean_cons {st : ChannelStatus} {r : ℕ} :
    Clean good d (some (st, r)) (f :: q) ↔
      (f.packet.Acts d st → good f.sender) ∧ Clean good d (f.packet.after d (some (st, r))) q := by
  rw [Clean]

theorem Clean.tail (h : Clean good d v (f :: q)) : Clean good d (f.packet.after d v) q := by
  match v with
  | none => exact clean_none
  | some (st, r) => exact (clean_cons.mp h).2

theorem Clean.mono (hgood : ∀ o, good o → good' o) (h : Clean good d v q) :
    Clean good' d v q := by
  induction q generalizing v with
  | nil => exact clean_nil
  | cons f q ih =>
    match v with
    | none => exact clean_none
    | some (st, r) =>
      obtain ⟨hf, hq⟩ := clean_cons.mp h
      exact clean_cons.mpr ⟨fun hacts => hgood _ (hf hacts), ih hq⟩

theorem Clean.concat (h : Clean good d v q) (hf : ∀ st, f.packet.Acts d st → good f.sender) :
    Clean good d v (q ++ [f]) := by
  induction q generalizing v with
  | nil =>
    match v with
    | none => exact clean_none
    | some (st, r) => exact clean_cons.mpr ⟨hf st, clean_nil⟩
  | cons g q ih =>
    match v with
    | none => exact clean_none
    | some (st, r) =>
      obtain ⟨hg, hq⟩ := clean_cons.mp h
      exact clean_cons.mpr ⟨hg, ih hq⟩

/-- A queue without effect on a channel leaves it as it is, and so has no effect later. -/
theorem clean_of_quiet {st : ChannelStatus} {r : ℕ} (h : ∀ f ∈ q, ¬f.packet.Acts d st) :
    Clean good d (some (st, r)) q := by
  induction q with
  | nil => exact clean_nil
  | cons f q ih =>
    have hf := h f List.mem_cons_self
    refine clean_cons.mpr ⟨fun hacts => absurd hacts hf, ?_⟩
    rw [ProtocolBuffer.after_of_not_acts hf]
    exact ih (fun g hg => h g (List.mem_cons_of_mem _ hg))

end Clean

/-- The channels of both sides by status and remote id, the last incarnation under each id, the
packets under way to each side and which `Open` packets it accepts, the incarnations that one
`Open` packet has joined, and what has been written on which incarnation. -/
structure Pairing where
  view : Side → ℕ → Option (ChannelStatus × ℕ)
  inc : Side → ℕ → ℕ
  queue : Side → List InFlight
  accepts : Side → ProtocolBuffer → Prop
  pairs : List (ℕ × ℕ)
  written : List (ℕ × Bytes)

namespace Pairing

def Paired (s : Pairing) (x y : ℕ) : Prop := (x, y) ∈ s.pairs ∨ (y, x) ∈ s.pairs

/-- The incarnation is the one paired with the present incarnation of `d`. -/
def Mate (s : Pairing) (side : Side) (d : ℕ) (o : Option ℕ) : Prop :=
  ∃ y ∈ o, s.Paired (s.inc side d) y

/-- The channel is open on one side and not confirmed yet. -/
def Opening (s : Pairing) (side : Side) (d : ℕ) : Prop := ∃ r, s.view side d = some (.opening, r)

/-- Remote ids, and the ids that packets carry, name the incarnations that belong together. -/
structure Inv (s : Pairing) : Prop where
  remote : ∀ side id st r, s.view side id = some (st, r) → r ≠ 0 →
    s.Paired (s.inc side id) (s.inc side.other r)
  clean : ∀ side d, Clean (s.Mate side d) d (s.view side d) (s.queue side)
  opens : ∀ side, ∀ f ∈ s.queue side, f.packet.kind = some .channelOpen →
    s.accepts side f.packet → f.sender = some (s.inc side.other f.packet.remoteChannelId)
  confirms : ∀ side, ∀ f ∈ s.queue side, f.packet.kind = some .channelOpenConfirmation →
    s.Opening side f.packet.localChannelId → f.packet.remoteChannelId ≠ 0 →
      f.sender = some (s.inc side.other f.packet.remoteChannelId)
  data : ∀ side, ∀ f ∈ s.queue side, f.packet.kind = some .channelData →
    ∀ y ∈ f.sender, (y, f.packet.payload) ∈ s.written

/-- Nothing refers to the id `c` of this side any more: no packet under way will have an effect on
a channel that starts in status `st` under it, the other side has no channel with this remote id,
and no packet under way will give it one. -/
structure Unreferenced (s : Pairing) (side : Side) (c : ℕ) (st : ChannelStatus) : Prop where
  quiet : ∀ f ∈ s.queue side, ¬f.packet.Acts c st
  remote : ∀ id st', s.view side.other id ≠ some (st', c)
  opens : ∀ f ∈ s.queue side.other, f.packet.kind = some .channelOpen →
    s.accepts side.other f.packet → f.packet.remoteChannelId ≠ c
  confirms : ∀ f ∈ s.queue side.other, f.packet.kind = some .channelOpenConfirmation →
    s.Opening side.other f.packet.localChannelId → f.packet.remoteChannelId ≠ c

def setView (s : Pairing) (side : Side) (id : ℕ) (v : Option (ChannelStatus × ℕ)) : Pairing :=
  { s with view := Function.update s.view side (Function.update (s.view side) id v) }

def remove (s : Pairing) (side : Side) (id : ℕ) : Pairing := s.setView side id none

/-- A new incarnation `x` of the id `c`. -/
def birth (s : Pairing) (side : Side) (c : ℕ) (st : ChannelStatus) (r x : ℕ) : Pairing :=
  { s.setView side c (some (st, r)) with
    inc := Function.update s.inc side (Function.update (s.inc side) c x) }

def pair (s : Pairing) (x y : ℕ) : Pairing := { s with pairs := (x, y) :: s.pairs }

def write (s : Pairing) (x : ℕ) (data : Bytes) : Pairing :=
  { s with written := (x, data) :: s.written }

/-- A packet sent by `side`. -/
def send (s : Pairing) (side : Side) (f : InFlight) : Pairing :=
  { s with queue := Function.update s.queue side.other (s.queue side.other ++ [f]) }

/-- The packet `f` at the head of the queue of `side` is handled. -/
def pop (s : Pairing) (side : Side) (f : InFlight) (rest : List InFlight) : Pairing :=
  { s.setView side f.packet.localChannelId
      (f.packet.after f.packet.localChannelId (s.view side f.packet.localChannelId)) with
    queue := Function.update s.queue side rest }

variable {s : Pairing} {side : Side}

theorem Paired.symm {x y : ℕ} (h : s.Paired x y) : s.Paired y x := Or.symm h

theorem setView_view (s : Pairing) (side side' : Side) (id id' : ℕ)
    (v : Option (ChannelStatus × ℕ)) :
    (s.setView side id v).view side' id' =
      if side' = side ∧ id' = id then v else s.view side' id' := by
  by_cases hs : side' = side
  · subst hs
    by_cases hid : id' = id
    · simp [setView, hid]
    · simp [setView, hid]
  · simp [setView, hs]

/-- A channel changes, and packets leave the queue of its side. -/
theorem Inv.advance (h : s.Inv) {id : ℕ} {v : Option (ChannelStatus × ℕ)} {rest : List InFlight}
    (hsub : ∀ f ∈ rest, f ∈ s.queue side)
    (hremote : ∀ st r, v = some (st, r) → r ≠ 0 → s.Paired (s.inc side id) (s.inc side.other r))
    (hclean : Clean (s.Mate side id) id v rest)
    (hothers : ∀ d, d ≠ id → Clean (s.Mate side d) d (s.view side d) rest)
    (hopening : ∀ r, v = some (.opening, r) → s.Opening side id) :
    Inv { s.setView side id v with queue := Function.update s.queue side rest } := by
  have hview (side' : Side) (id' : ℕ) := setView_view s side side' id id' v
  have hqueue : ∀ side', ∀ f ∈ Function.update s.queue side rest side', f ∈ s.queue side' := by
    intro side' f hf
    by_cases hs : side' = side
    · subst hs
      rw [Function.update_self] at hf
      exact hsub f hf
    · rwa [Function.update_of_ne hs] at hf
  refine ⟨?_, ?_, ?_, ?_, ?_⟩
  · intro side' id' st r hv hr
    simp only [hview] at hv
    split_ifs at hv with hc
    · obtain ⟨rfl, rfl⟩ := hc
      exact hremote st r hv hr
    · exact h.remote side' id' st r hv hr
  · intro side' d
    simp only [hview]
    by_cases hs : side' = side
    · subst hs
      rw [Function.update_self]
      by_cases hd : d = id
      · subst hd
        rw [if_pos ⟨rfl, rfl⟩]
        exact hclean
      · rw [if_neg (fun hc => hd hc.2)]
        exact hothers d hd
    · rw [Function.update_of_ne hs, if_neg (fun hc => hs hc.1)]
      exact h.clean side' d
  · intro side' f hf hkind hacc
    exact h.opens side' f (hqueue side' f hf) hkind hacc
  · intro side' f hf hkind hopen hne
    refine h.confirms side' f (hqueue side' f hf) hkind ?_ hne
    obtain ⟨r, hr⟩ := hopen
    simp only [hview] at hr
    split_ifs at hr with hc
    · obtain ⟨rfl, hid⟩ := hc
      rw [hid]
      exact hopening r hr
    · exact ⟨r, hr⟩
  · intro side' f hf hkind y hy
    exact h.data side' f (hqueue side' f hf) hkind y hy

theorem Inv.remove (h : s.Inv) (side : Side) (id : ℕ) : (s.remove side id).Inv := by
  have hadv : Inv { s.setView side id none with
      queue := Function.update s.queue side (s.queue side) } :=
    h.advance (fun _ hf => hf) nofun clean_none (fun d _ => h.clean side d) nofun
  rwa [Function.update_eq_self] at hadv

/-- A confirmation that arrives at a channel that waits for one makes the pair known. -/
theorem Inv.after_remote (h : s.Inv) {f : InFlight} {rest : List InFlight}
    (hq : s.queue side = f :: rest) {st st' : ChannelStatus} {r r' : ℕ}
    (hv : s.view side f.packet.localChannelId = some (st, r))
    (hafter : f.packet.after f.packet.localChannelId (some (st, r)) = some (st', r')) (hr : r' ≠ 0) :
    s.Paired (s.inc side f.packet.localChannelId) (s.inc side.other r') := by
  by_cases hacts : f.packet.Acts f.packet.localChannelId st
  · obtain ⟨t, ht, -⟩ := hacts.2.2
    rw [ProtocolBuffer.after_of_acts hacts ht] at hafter
    by_cases hconf : t = .channelOpenConfirmation
    · subst hconf
      simp only [afterPacket] at hafter
      split_ifs at hafter with hsrc
      cases hafter
      have hst : st = .opening := by simpa [ChannelStatus.reacts] using hacts.reacts ht
      have hclean := h.clean side f.packet.localChannelId
      rw [hv, hq] at hclean
      obtain ⟨y, hy, hpair⟩ := (clean_cons.mp hclean).1 hacts
      have hsender := h.confirms side f (by rw [hq]; exact List.mem_cons_self) ht
        ⟨r, by rw [hv, hst]⟩ hsrc
      obtain rfl := Option.some.inj (hsender.symm.trans hy)
      exact hpair
    · have hr' : r' = r := by
        cases t <;> simp only [afterPacket] at hafter <;> first | contradiction | (cases hafter; rfl)
      subst hr'
      exact h.remote side _ st r' hv hr
  · rw [ProtocolBuffer.after_of_not_acts hacts] at hafter
    cases hafter
    exact h.remote side _ st r hv hr

theorem Inv.pop (h : s.Inv) {f : InFlight} {rest : List InFlight}
    (hq : s.queue side = f :: rest) : (s.pop side f rest).Inv := by
  refine h.advance (fun g hg => by rw [hq]; exact List.mem_cons_of_mem _ hg) ?_ ?_ ?_ ?_
  · intro st' r' hafter hr
    cases hv : s.view side f.packet.localChannelId with
    | none =>
      rw [hv] at hafter
      cases hafter
    | some v =>
      rw [hv] at hafter
      exact h.after_remote hq hv hafter hr
  · have hclean := h.clean side f.packet.localChannelId
    rw [hq] at hclean
    exact hclean.tail
  · intro d hd
    have hclean := h.clean side d
    rw [hq] at hclean
    -- The packet is not for `d`, so that the channel there stays as it is.
    have hsame : f.packet.after d (s.view side d) = s.view side d := by
      cases s.view side d with
      | none => rfl
      | some v => exact ProtocolBuffer.after_of_not_acts (fun hacts => hd hacts.1.symm) v.2
    rw [← hsame]
    exact hclean.tail
  · intro r hafter
    exact ProtocolBuffer.after_opening hafter

theorem Paired.pair {x y : ℕ} (h : s.Paired x y) (x' y' : ℕ) : (s.pair x' y').Paired x y :=
  h.imp (List.mem_cons_of_mem _) (List.mem_cons_of_mem _)

theorem Inv.pair (h : s.Inv) (x y : ℕ) : (s.pair x y).Inv where
  remote side id st r hv hr := (h.remote side id st r hv hr).pair x y
  clean side d := (h.clean side d).mono (fun _ ⟨z, hz, hp⟩ => ⟨z, hz, hp.pair x y⟩)
  opens := h.opens
  confirms := h.confirms
  data := h.data

theorem Inv.write (h : s.Inv) (x : ℕ) (data : Bytes) : (s.write x data).Inv where
  remote := h.remote
  clean := h.clean
  opens := h.opens
  confirms := h.confirms
  data side f hf hkind y hy := List.mem_cons_of_mem _ (h.data side f hf hkind y hy)

/-- The ids and the sender of a packet fit together when it is sent. -/
structure Sound (s : Pairing) (side : Side) (f : InFlight) : Prop where
  mate : ∀ d st, f.packet.Acts d st → s.Mate side.other d f.sender
  opens : f.packet.kind = some .channelOpen →
    f.sender = some (s.inc side f.packet.remoteChannelId)
  confirms : f.packet.kind = some .channelOpenConfirmation → f.packet.remoteChannelId ≠ 0 →
    f.sender = some (s.inc side f.packet.remoteChannelId)
  data : f.packet.kind = some .channelData → ∀ y ∈ f.sender, (y, f.packet.payload) ∈ s.written

theorem send_queue_other (s : Pairing) (side : Side) (f : InFlight) :
    (s.send side f).queue side.other = s.queue side.other ++ [f] := Function.update_self _ _ _

theorem send_queue_of_ne {side' : Side} (hne : side' ≠ side.other) (f : InFlight) :
    (s.send side f).queue side' = s.queue side' := Function.update_of_ne hne _ _

theorem Inv.send (h : s.Inv) {f : InFlight} (hf : s.Sound side f) : (s.send side f).Inv := by
  have hqueue : ∀ side', ∀ g ∈ (s.send side f).queue side',
      g ∈ s.queue side' ∨ side' = side.other ∧ g = f := by
    intro side' g hg
    by_cases hs : side' = side.other
    · subst hs
      rw [send_queue_other, List.mem_append, List.mem_singleton] at hg
      exact hg.imp_right (fun hgf => ⟨rfl, hgf⟩)
    · rw [send_queue_of_ne hs] at hg
      exact .inl hg
  refine ⟨h.remote, ?_, ?_, ?_, ?_⟩
  · intro side' d
    by_cases hs : side' = side.other
    · subst hs
      rw [send_queue_other]
      exact (h.clean side.other d).concat (hf.mate d)
    · rw [send_queue_of_ne hs]
      exact h.clean side' d
  · intro side' g hg hkind hacc
    rcases hqueue side' g hg with hg | ⟨rfl, rfl⟩
    · exact h.opens side' g hg hkind hacc
    · rw [Side.other_other]
      exact hf.opens hkind
  · intro side' g hg hkind hopen hne
    rcases hqueue side' g hg with hg | ⟨rfl, rfl⟩
    · exact h.confirms side' g hg hkind hopen hne
    · rw [Side.other_other]
      exact hf.confirms hkind hne
  · intro side' g hg hkind y hy
    rcases hqueue side' g hg with hg | ⟨rfl, rfl⟩
    · exact h.data side' g hg hkind y hy
    · exact hf.data hkind y hy

theorem birth_inc_same (s : Pairing) (side : Side) (c : ℕ) (st : ChannelStatus) (r x : ℕ) :
    (s.birth side c st r x).inc side c = x := by
  simp [birth]

theorem birth_inc_of_ne {side' : Side} {c d : ℕ} (hne : side' = side → d ≠ c) (st : ChannelStatus)
    (r x : ℕ) : (s.birth side c st r x).inc side' d = s.inc side' d := by
  by_cases hs : side' = side
  · subst hs
    simp [birth, hne rfl]
  · simp [birth, hs]

theorem Inv.birth (h : s.Inv) {c r x : ℕ} {st : ChannelStatus} (hc : c ≠ 0)
    (hfree : s.Unreferenced side c st)
    (hr : r ≠ 0 → s.Paired x (s.inc side.other r)) : (s.birth side c st r x).Inv := by
  have hview (side' : Side) (id' : ℕ) := setView_view s side side' c id' (some (st, r))
  have hother (d : ℕ) : (s.birth side c st r x).inc side.other d = s.inc side.other d :=
    birth_inc_of_ne (fun hs => absurd hs (Side.other_ne side)) st r x
  refine ⟨?_, ?_, ?_, ?_, ?_⟩
  · intro side' id' st' r' hv hr'
    simp only [Pairing.birth, hview] at hv
    split_ifs at hv with hcase
    · obtain ⟨rfl, rfl⟩ := hcase
      cases hv
      rw [birth_inc_same, hother]
      exact hr hr'
    · have hold := h.remote side' id' st' r' hv hr'
      rcases Side.eq_or_eq_other side side' with rfl | rfl
      · rw [birth_inc_of_ne (fun _ hid => hcase ⟨rfl, hid⟩), hother]
        exact hold
      · have hne : r' ≠ c := by
          rintro rfl
          exact hfree.remote id' st' hv
        rw [hother, Side.other_other, birth_inc_of_ne (fun _ => hne)]
        rwa [Side.other_other] at hold
  · intro side' d
    simp only [Pairing.birth, hview]
    split_ifs with hcase
    · obtain ⟨rfl, rfl⟩ := hcase
      exact clean_of_quiet hfree.quiet
    · have hinc : (s.birth side c st r x).inc side' d = s.inc side' d :=
        birth_inc_of_ne (fun hs hd => hcase ⟨hs, hd⟩) st r x
      refine (h.clean side' d).mono (fun o hmate => ?_)
      obtain ⟨y, hy, hp⟩ := hmate
      exact ⟨y, hy, by rw [← hinc] at hp; exact hp⟩
  · intro side' f hf hkind hacc
    rw [h.opens side' f hf hkind hacc]
    rcases Side.eq_or_eq_other side side' with rfl | rfl
    · rw [hother]
    · rw [Side.other_other, birth_inc_of_ne (fun _ => hfree.opens f hf hkind hacc)]
  · intro side' f hf hkind hopen hne
    obtain ⟨r', hr'⟩ := hopen
    simp only [Pairing.birth, hview] at hr'
    split_ifs at hr' with hcase
    · -- The new channel waits for its own confirmation, and no other is under way.
      obtain ⟨rfl, hid⟩ := hcase
      cases hr'
      exact absurd ⟨hid, hc, _, hkind, rfl⟩ (hfree.quiet f hf)
    · rw [h.confirms side' f hf hkind ⟨r', hr'⟩ hne]
      rcases Side.eq_or_eq_other side side' with rfl | rfl
      · rw [hother]
      · rw [Side.other_other, birth_inc_of_ne (fun _ => hfree.confirms f hf hkind ⟨r', hr'⟩)]
  · exact h.data

end Pairing

end Carrier.Session
