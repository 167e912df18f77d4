import Mathlib.Data.List.TakeWhile
import Carrier.Session.TcpSending

/-! What the calls of a pseudo-TCP socket leave alone, whatever the packets and the peer are. -/
namespace Carrier.Session
open Carrier.Lib PseudoTcpSocket

/-- The sizes that a segment may have. -/
def Sized (mss : BitVec 32) : Prop := 180 ≤ mss.toNat ∧ mss.toNat ≤ 65419

/-- The times of a socket have been read from a clock that has not passed `T`. -/
structure Timed (T : ℕ) (s : PseudoTcpSocket) : Prop where
  tAck : s.timing.tAck.toNat ≤ T
  rtoBase : s.timing.rtoBase.toNat ≤ T
  lastsend : s.outgoing.lastsend.toNat ≤ T

/-- Segments with addresses of their own, none of which has been sent too often. -/
structure Tried (l : List SSegment) (nextId : ℕ) : Prop where
  nodup : (l.map SSegment.id).Nodup
  fresh : ∀ g ∈ l, g.id < nextId
  xmit : ∀ g ∈ l, g.xmit ≤ 30

/-- The segment that has waited longest waits on, and has been sent as often at least. -/
def Waiting (l l' : List SSegment) : Prop :=
  ∀ g ∈ l.head?, ∃ g' ∈ l'.head?, g'.id = g.id ∧ g.xmit ≤ g'.xmit

theorem Waiting.refl (l : List SSegment) : Waiting l l := fun g hg => ⟨g, hg, rfl, le_rfl⟩

theorem Waiting.trans {l l' l'' : List SSegment} (h : Waiting l l') (h' : Waiting l' l'') :
    Waiting l l'' := by
  intro g hg
  obtain ⟨g', hg', hid, hle⟩ := h g hg
  obtain ⟨g'', hg'', hid', hle'⟩ := h' g' hg'
  exact ⟨g'', hg'', hid'.trans hid, hle.trans hle'⟩

theorem Waiting.of_eq {l l' : List SSegment} (h : l'.head? = l.head?) : Waiting l l' := by
  intro g hg
  rw [← h] at hg
  exact ⟨g, hg, rfl, le_rfl⟩

theorem Waiting.map (l : List SSegment) {f : SSegment → SSegment} (hid : ∀ g, (f g).id = g.id)
    (hxmit : ∀ g, g.xmit ≤ (f g).xmit) : Waiting l (l.map f) := by
  intro g hg
  rw [List.head?_map, Option.mem_def.mp hg]
  exact ⟨f g, rfl, hid g, hxmit g⟩

section Queues

variable {l : List SSegment} {nextId : ℕ} {g : SSegment}

theorem Tried.unique (h : Tried l nextId) (hg : g ∈ l) : ∀ x ∈ l, x.id = g.id → x = g :=
  fun _ hx hid => List.inj_on_of_nodup_map h.nodup hx hg hid

theorem Tried.map (h : Tried l nextId) {f : SSegment → SSegment} (hid : ∀ g, (f g).id = g.id)
    (hxmit : ∀ g ∈ l, (f g).xmit ≤ 30) : Tried (l.map f) nextId := by
  constructor
  · rw [List.map_map, show SSegment.id ∘ f = SSegment.id from funext hid]
    exact h.nodup
  · intro x hx
    obtain ⟨y, hy, rfl⟩ := List.mem_map.mp hx
    rw [hid]
    exact h.fresh y hy
  · intro x hx
    obtain ⟨y, hy, rfl⟩ := List.mem_map.mp hx
    exact hxmit y hy

theorem Tried.add (h : Tried l nextId) (hid : g.id = nextId) (hxmit : g.xmit ≤ 30) {l' : List SSegment}
    (hperm : l'.Perm (g :: l)) : Tried l' (nextId + 1) := by
  constructor
  · rw [(hperm.map SSegment.id).nodup_iff, List.map_cons, List.nodup_cons]
    refine ⟨?_, h.nodup⟩
    intro hmem
    obtain ⟨x, hx, heq⟩ := List.mem_map.mp hmem
    have hlt := h.fresh x hx
    omega
  · intro x hx
    obtain rfl | hx := List.mem_cons.mp (hperm.mem_iff.mp hx)
    · omega
    · exact (h.fresh x hx).trans (Nat.lt_succ_self _)
  · intro x hx
    obtain rfl | hx := List.mem_cons.mp (hperm.mem_iff.mp hx)
    · exact hxmit
    · exact h.xmit x hx

theorem insertAfter_perm {α : Type*} (p : α → Bool) (x : α) (l : List α) :
    (insertAfter p x l).Perm (x :: l) := by
  have hsplit := List.takeWhile_append_dropWhile (p := (!p ·)) (l := l)
  unfold insertAfter
  cases hdrop : l.dropWhile (!p ·) with
  | nil => exact List.Perm.refl _
  | cons y rest =>
    rw [hdrop] at hsplit
    calc (l.takeWhile (!p ·) ++ y :: x :: rest).Perm (l.takeWhile (!p ·) ++ x :: y :: rest) :=
          List.Perm.append_left _ (List.Perm.swap x y rest)
      _ |>.Perm (x :: (l.takeWhile (!p ·) ++ y :: rest)) := List.perm_middle
      _ = (x :: l) := by rw [hsplit]

theorem head?_insertAfter {α : Type*} {p : α → Bool} {x y : α} {l : List α} (hy : y ∈ l) (hp : p y = true) :
    (insertAfter p x l).head? = l.head? := by
  have hsplit := List.takeWhile_append_dropWhile (p := (!p ·)) (l := l)
  unfold insertAfter
  cases hdrop : l.dropWhile (!p ·) with
  | nil =>
    have hnot := List.dropWhile_eq_nil_iff.mp hdrop y hy
    rw [hp] at hnot
    exact absurd hnot (by decide)
  | cons z rest =>
    rw [hdrop] at hsplit
    dsimp only
    generalize l.takeWhile (!p ·) = before at hsplit ⊢
    subst hsplit
    cases before with
    | nil => rfl
    | cons w ws => rfl

end Queues

/-- What sending changes nothing about: the threshold of the congestion and the timeout of the
retransmissions, what has been received, written and read, and that a socket has closed. The segments
stay within their limits. -/
structure Sent (now : BitVec 32) (s s' : PseudoTcpSocket) : Prop where
  closed : s.state = .closed → s'.state = .closed
  incoming : s'.incoming = s.incoming
  written : s'.log.written = s.log.written
  read : s'.log.read = s.log.read
  rxRto : s'.timing.rxRto = s.timing.rxRto
  currentTime : s'.timing.currentTime = s.timing.currentTime
  ackDelay : s'.timing.ackDelay = s.timing.ackDelay
  ssthresh : s'.congestion.ssthresh = s.congestion.ssthresh
  mtuAdvise : s'.congestion.mtuAdvise = s.congestion.mtuAdvise
  mss : Sized s.congestion.mss → Sized s'.congestion.mss
  times : ∀ T, now.toNat ≤ T → Timed T s → Timed T s'
  tried : Tried s.outgoing.slist s.outgoing.nextId → Tried s'.outgoing.slist s'.outgoing.nextId
  waiting : Waiting s.outgoing.slist s'.outgoing.slist

/-- A packet moreover leaves the queue of the segments alone. -/
structure Packed (now : BitVec 32) (s s' : PseudoTcpSocket) : Prop extends Sent now s s' where
  slist : s'.outgoing.slist = s.outgoing.slist
  nextId : s'.outgoing.nextId = s.outgoing.nextId

section Sent

variable {now : BitVec 32} {s s' s'' : PseudoTcpSocket}

theorem Sent.refl (now : BitVec 32) (s : PseudoTcpSocket) : Sent now s s :=
  ⟨id, rfl, rfl, rfl, rfl, rfl, rfl, rfl, rfl, id, fun _ _ => id, id, .refl _⟩

theorem Sent.trans (h : Sent now s s') (h' : Sent now s' s'') : Sent now s s'' where
  closed := h'.closed ∘ h.closed
  incoming := h'.incoming.trans h.incoming
  written := h'.written.trans h.written
  read := h'.read.trans h.read
  rxRto := h'.rxRto.trans h.rxRto
  currentTime := h'.currentTime.trans h.currentTime
  ackDelay := h'.ackDelay.trans h.ackDelay
  ssthresh := h'.ssthresh.trans h.ssthresh
  mtuAdvise := h'.mtuAdvise.trans h.mtuAdvise
  mss := h'.mss ∘ h.mss
  times T hT := h'.times T hT ∘ h.times T hT
  tried := h'.tried ∘ h.tried
  waiting := h.waiting.trans h'.waiting

theorem Packed.refl (now : BitVec 32) (s : PseudoTcpSocket) : Packed now s s :=
  ⟨.refl now s, rfl, rfl⟩

theorem Packed.trans (h : Packed now s s') (h' : Packed now s' s'') : Packed now s s'' :=
  ⟨h.toSent.trans h'.toSent, h'.slist.trans h.slist, h'.nextId.trans h.nextId⟩

theorem Packed.sized (s : PseudoTcpSocket) (c : Congestion) (hssthresh : c.ssthresh = s.congestion.ssthresh)
    (hmtu : c.mtuAdvise = s.congestion.mtuAdvise) (hmss : Sized s.congestion.mss → Sized c.mss) :
    Packed now s { s with congestion := c } where
  closed := id
  incoming := rfl
  written := rfl
  read := rfl
  rxRto := rfl
  currentTime := rfl
  ackDelay := rfl
  ssthresh := hssthresh
  mtuAdvise := hmtu
  mss := hmss
  times _ _ h := ⟨h.tAck, h.rtoBase, h.lastsend⟩
  tried := id
  waiting := .refl _
  slist := rfl
  nextId := rfl

end Sent

section Sending

variable {E : TcpEnv} {s : PseudoTcpSocket} {now seq offset len : BitVec 32} {flags : UInt8}

theorem getCurrentTime_sent (E : TcpEnv) (s : PseudoTcpSocket) : Sent now s (s.getCurrentTime E).2 := by
  unfold getCurrentTime
  split_ifs with hunset
  · exact .refl now s
  · exact ⟨id, rfl, rfl, rfl, rfl, rfl, rfl, rfl, rfl, id, fun _ _ h => ⟨h.tAck, h.rtoBase, h.lastsend⟩, id,
      .refl _⟩

theorem packet_packed :
    Gives (fun r => Packed now s r.2) (s.packet E seq flags offset len now) := by
  unfold packet writePacket
  dsimp only
  generalize (if len ≠ 0 then s.outgoing.sbuf.readOffset len.toNat offset.toNat else []) = data
  by_cases hfit : HEADER_SIZE + len.toNat ≤ MAX_PACKET ∧ data.length = len.toNat
  · rw [if_pos hfit]
    by_cases hlost : E.write s.log.writes ≠ .success ∧ len ≠ 0
    · rw [if_pos hlost]
      refine gives_some ⟨⟨id, rfl, rfl, rfl, rfl, rfl, rfl, rfl, rfl, id, ?_, id, .refl _⟩, rfl, rfl⟩
      exact fun _ _ h => ⟨h.tAck, h.rtoBase, h.lastsend⟩
    · rw [if_neg hlost]
      refine gives_some ⟨⟨id, rfl, rfl, rfl, rfl, rfl, rfl, rfl, rfl, id, ?_, id, .refl _⟩, rfl, rfl⟩
      intro T hT h
      refine ⟨Nat.zero_le T, h.rtoBase, ?_⟩
      dsimp only
      split_ifs with hpos
      · exact hT
      · exact h.lastsend
  · rw [if_neg hfit]
    exact gives_none

theorem ackPacket_sent : Gives (Sent now s) (s.ackPacket E seq now) :=
  packet_packed.map (fun _ hr => hr.toSent)

theorem lowerMss_packed (fuel : ℕ) (s : PseudoTcpSocket) (nTransmit : BitVec 32) :
    Packed now s (lowerMss fuel s nTransmit).2 := by
  induction fuel generalizing s with
  | zero => exact .refl now s
  | succ fuel ih =>
    rw [lowerMss]
    obtain hzero | ⟨hlevel, hlow, hhigh⟩ := packetMaximums_bounds s.congestion.msslevel
    · simp only [hzero, if_true]
      exact .refl now s
    · generalize PACKET_MAXIMUMS.getD (s.congestion.msslevel + 1) 0 = size at hlow hhigh ⊢
      have hne : size ≠ 0 := by omega
      have hsized : Sized (BitVec.ofNat 32 size - PACKET_OVERHEAD) := by
        unfold Sized PACKET_OVERHEAD
        bv_omega
      have hlower : Packed now s { s with
          congestion.msslevel := s.congestion.msslevel + 1
          congestion.mss := BitVec.ofNat 32 size - PACKET_OVERHEAD
          congestion.cwnd := 2 * (BitVec.ofNat 32 size - PACKET_OVERHEAD) } :=
        .sized s _ rfl rfl (fun _ => hsized)
      simp only [if_neg hne]
      split_ifs with hlt
      · exact hlower
      · exact hlower.trans (ih _)

theorem transmitLoop_packed {g : SSegment} {fuel : ℕ} {nTransmit : BitVec 32} :
    Gives (fun r => Packed now s r.2.2) (transmitLoop E g now fuel s nTransmit) := by
  induction fuel generalizing s nTransmit with
  | zero => exact gives_none
  | succ fuel ih =>
    unfold transmitLoop
    split_ifs with hnear
    · refine packet_packed.bind ?_
      rintro ⟨wres, s₁⟩ hs₁
      cases wres with
      | success => exact gives_some hs₁
      | fail => exact gives_some hs₁
      | tooLarge =>
        have hlower := Packed.trans hs₁ (lowerMss_packed PACKET_MAXIMUMS.length s₁ nTransmit)
        dsimp only
        split_ifs with hlowered
        · exact ih.imp (fun r hr => hlower.trans hr)
        · exact gives_some hlower
    · exact gives_none

theorem cutSegment_sent {g : SSegment} (hg : g ∈ s.outgoing.slist) (n : BitVec 32) {xmit : ℕ}
    (hxmit : Tried s.outgoing.slist s.outgoing.nextId → xmit ≤ 30) :
    Sent now s (s.cutSegment g n xmit) := by
  have hid : ∀ x : SSegment, (if x.id = g.id then { x with len := n } else x).id = x.id := by
    intro x
    split_ifs <;> rfl
  have hsame : ∀ x : SSegment, (if x.id = g.id then { x with len := n } else x).xmit = x.xmit := by
    intro x
    split_ifs <;> rfl
  have hmem : { g with len := n } ∈
      s.outgoing.slist.map (fun h => if h.id = g.id then { h with len := n } else h) :=
    List.mem_map.mpr ⟨g, hg, if_pos rfl⟩
  refine ⟨id, rfl, rfl, rfl, rfl, rfl, rfl, rfl, rfl, id, fun _ _ h => ⟨h.tAck, h.rtoBase, h.lastsend⟩, ?_, ?_⟩
  · intro htried
    have hcut := htried.map hid (fun x hx => (hsame x).trans_le (htried.xmit x hx))
    exact hcut.add rfl (hxmit htried) (insertAfter_perm _ _ _)
  · have hcut := Waiting.map s.outgoing.slist hid (fun x => (hsame x).ge)
    exact hcut.trans (.of_eq (head?_insertAfter hmem (decide_eq_true rfl)))

theorem firstTransmit_packed {g : SSegment} : Gives (Packed now s) (s.firstTransmit g) := by
  unfold firstTransmit
  dsimp only
  by_cases hhead : s.outgoing.unsentSlist.head? = some g.id
  · rw [if_pos hhead]
    refine gives_some ⟨⟨id, rfl, rfl, rfl, rfl, rfl, rfl, rfl, rfl, id, ?_, id, .refl _⟩, rfl, rfl⟩
    exact fun _ _ h => ⟨h.tAck, h.rtoBase, h.lastsend⟩
  · rw [if_neg hhead]
    exact gives_none

theorem countTransmit_sent {i : ℕ} (hfew : Tried s.outgoing.slist s.outgoing.nextId →
      ∀ x ∈ s.outgoing.slist, x.id = i → x.xmit < 30) : Sent now s (s.countTransmit i now) := by
  have hid : ∀ x : SSegment, (if x.id = i then { x with xmit := x.xmit + 1 } else x).id = x.id := by
    intro x
    split_ifs <;> rfl
  refine ⟨id, rfl, rfl, rfl, rfl, rfl, rfl, rfl, rfl, id, fun T hT h => ⟨h.tAck, ?_, h.lastsend⟩, ?_, ?_⟩
  · change (if s.timing.rtoBase = 0 then now else s.timing.rtoBase).toNat ≤ T
    split_ifs
    · exact hT
    · exact h.rtoBase
  · intro htried
    refine htried.map hid (fun x hx => ?_)
    split_ifs with hx'
    · exact hfew htried x hx hx'
    · exact htried.xmit x hx
  · refine Waiting.map s.outgoing.slist hid (fun x => ?_)
    split_ifs
    · exact Nat.le_succ _
    · exact le_rfl

theorem cutSegment_mem {g : SSegment} (hg : g ∈ s.outgoing.slist) (n : BitVec 32) (xmit : ℕ) :
    { g with len := n } ∈ (s.cutSegment g n xmit).outgoing.slist ∧
      (g ∈ s.outgoing.slist.head? → { g with len := n } ∈ (s.cutSegment g n xmit).outgoing.slist.head?) := by
  have hmem : { g with len := n } ∈
      s.outgoing.slist.map (fun h => if h.id = g.id then { h with len := n } else h) :=
    List.mem_map.mpr ⟨g, hg, if_pos rfl⟩
  refine ⟨(insertAfter_perm _ _ _).mem_iff.mpr (List.mem_cons_of_mem _ hmem), ?_⟩
  intro hhead
  have hsame : (s.cutSegment g n xmit).outgoing.slist.head? = _ :=
    head?_insertAfter hmem (decide_eq_true rfl)
  rw [hsame, List.head?_map, Option.mem_def.mp hhead, Option.map_some, if_pos rfl]
  rfl

/-- A segment of which a piece has been sent counts as sent once more. -/
theorem afterTransmit_sent {g : SSegment} {n : BitVec 32} (hg : g ∈ s.outgoing.slist) (hfew : g.xmit < 30) :
    Gives (fun r => Sent now s r.2 ∧ (g ∈ s.outgoing.slist.head? →
      ∃ g' ∈ r.2.outgoing.slist.head?, g'.id = g.id ∧ g.xmit < g'.xmit)) (afterTransmit s g n now) := by
  have hcut : ∃ g₁ : SSegment, g₁.id = g.id ∧ g₁.xmit = g.xmit ∧
      Sent now s (if n < g.len then s.cutSegment g n g.xmit else s) ∧
      g₁ ∈ (if n < g.len then s.cutSegment g n g.xmit else s).outgoing.slist ∧
      (g ∈ s.outgoing.slist.head? →
        g₁ ∈ (if n < g.len then s.cutSegment g n g.xmit else s).outgoing.slist.head?) := by
    split_ifs with hpart
    · exact ⟨{ g with len := n }, rfl, rfl, cutSegment_sent hg n (fun _ => hfew.le),
        cutSegment_mem hg n g.xmit⟩
    · exact ⟨g, rfl, rfl, .refl now s, hg, id⟩
  unfold afterTransmit
  generalize (if n < g.len then s.cutSegment g n g.xmit else s) = s₁ at hcut ⊢
  obtain ⟨g₁, hid, hxmit, hsent, hmem, hhead⟩ := hcut
  have hcount : ∀ s₂, Packed now s₁ s₂ → Sent now s (s₂.countTransmit g.id now) ∧
      (g ∈ s.outgoing.slist.head? →
        ∃ g' ∈ (s₂.countTransmit g.id now).outgoing.slist.head?, g'.id = g.id ∧ g.xmit < g'.xmit) := by
    intro s₂ hs₂
    constructor
    · refine (hsent.trans hs₂.toSent).trans (countTransmit_sent (fun htried x hx hx' => ?_))
      rw [hs₂.slist] at htried hx
      rw [htried.unique hmem x hx (hx'.trans hid.symm), hxmit]
      exact hfew
    · intro hfirst
      refine ⟨{ g₁ with xmit := g₁.xmit + 1 }, ?_, hid, ?_⟩
      · have hmapped : (s₂.countTransmit g.id now).outgoing.slist.head? = _ := List.head?_map
        rw [hmapped, hs₂.slist, Option.mem_def.mp (hhead hfirst), Option.map_some, if_pos hid]
        rfl
      · change g.xmit < g₁.xmit + 1
        omega
  by_cases hfirst : g.xmit = 0
  · rw [if_pos hfirst]
    exact firstTransmit_packed.bind (fun s₂ hs₂ => gives_some (hcount s₂ hs₂))
  · rw [if_neg hfirst]
    exact gives_some (hcount s₁ (.refl now s₁))

/-- Without an error the first segment of the queue has been sent once more. -/
theorem transmit_sent {i : ℕ} : Gives (fun r => Sent now s r.2 ∧ ∀ g ∈ s.outgoing.slist.head?, g.id = i →
      r.1 = .ok → ∃ g' ∈ r.2.outgoing.slist.head?, g'.id = i ∧ g.xmit < g'.xmit)
    (s.transmit E i now) := by
  cases hfind : s.segment? i with
  | none =>
    rw [transmit, hfind]
    exact gives_none
  | some g =>
    have hid : g.id = i := by
      have hfound := List.find?_some hfind
      exact of_decide_eq_true hfound
    have hmem : g ∈ s.outgoing.slist := List.mem_of_find?_eq_some hfind
    have hhead : ∀ x ∈ s.outgoing.slist.head?, x.id = i → x = g := by
      intro x hx hx'
      obtain ⟨rest, hrest⟩ := List.head?_eq_some_iff.mp hx
      rw [segment?, hrest, List.find?_cons_of_pos (by exact decide_eq_true hx')] at hfind
      exact Option.some.inj hfind
    rw [← hid] at hfind ⊢
    rw [transmit_eq hfind]
    by_cases htired : (if s.state = .established then 15 else 30) ≤ g.xmit
    · rw [if_pos htired]
      refine gives_some ⟨.refl now s, ?_⟩
      intro _ _ _ heq
      cases heq
    · rw [if_neg htired]
      have hfew : g.xmit < 30 := by
        split_ifs at htired <;> omega
      refine transmitLoop_packed.bind ?_
      rintro ⟨err, n, s₁⟩ hs₁
      dsimp only at hs₁ ⊢
      by_cases herr : err = .ok
      · rw [if_neg (not_not.mpr herr)]
        rw [← hs₁.slist] at hmem
        refine (afterTransmit_sent hmem hfew).imp (fun r hr => ⟨hs₁.toSent.trans hr.1, ?_⟩)
        intro x hx hx' _
        obtain rfl := hhead x hx (hx'.trans hid)
        rw [← hs₁.slist] at hx
        exact hr.2 hx
      · rw [if_pos herr]
        exact gives_some ⟨hs₁.toSent, fun _ _ _ heq => absurd heq herr⟩

/-- The same socket in another state. -/
def Restated (s s' : PseudoTcpSocket) : Prop := ∃ state, s' = { s with state := state }

theorem setState_restated {s₀ : PseudoTcpSocket} (h : Restated s₀ s) (newState : PseudoTcpState) :
    Gives (Restated s₀) (s.setState newState) := by
  obtain ⟨state, rfl⟩ := h
  unfold setState
  split_ifs with hsame hstep
  · exact gives_some ⟨state, rfl⟩
  · exact gives_some ⟨newState, rfl⟩
  · exact gives_none

theorem setStateClosed_sent {s₀ : PseudoTcpSocket} (h : Restated s₀ s) (err : SocketError) :
    Gives (fun s' => Sent now s₀ s' ∧ s'.state = .closed) (s.setStateClosed err) := by
  have hclosed : Gives (fun s' => Restated s₀ s' ∧ s'.state = .closed) (s.setState .closed) := by
    obtain ⟨state, rfl⟩ := h
    unfold setState
    split_ifs with hsame hstep
    · exact gives_some ⟨⟨state, rfl⟩, hsame.symm⟩
    · exact gives_some ⟨⟨.closed, rfl⟩, rfl⟩
    · exact gives_none
  unfold setStateClosed
  refine hclosed.bind (fun s₁ hs₁ => gives_some ?_)
  obtain ⟨⟨state, rfl⟩, hstate⟩ := hs₁
  split_ifs with herr
  · exact ⟨⟨fun _ => hstate, rfl, rfl, rfl, rfl, rfl, rfl, rfl, rfl, id,
      fun _ _ h => ⟨h.tAck, h.rtoBase, h.lastsend⟩, id, .refl _⟩, hstate⟩
  · exact ⟨⟨fun _ => hstate, rfl, rfl, rfl, rfl, rfl, rfl, rfl, rfl, id,
      fun _ _ h => ⟨h.tAck, h.rtoBase, h.lastsend⟩, id, .refl _⟩, hstate⟩

theorem closeStates_sent (s : PseudoTcpSocket) (err : SocketError) :
    Gives (fun s' => Sent now s s' ∧ s'.state = .closed) (s.closeStates err) := by
  have hsame : Restated s s := ⟨s.state, rfl⟩
  have hclosed : ∀ s', Restated s s' →
      Gives (fun s' => Sent now s s' ∧ s'.state = .closed) (s'.setStateClosed err) :=
    fun s' hs' => setStateClosed_sent hs' err
  have hlast : ∀ s', Restated s s' → Gives (fun s' => Sent now s s' ∧ s'.state = .closed)
      ((s'.setState .timeWait).bind (fun s => s.setStateClosed err)) :=
    fun s' hs' => (setState_restated hs' _).bind hclosed
  have hmiddle : ∀ s', Restated s s' → Gives (fun s' => Sent now s s' ∧ s'.state = .closed)
      ((s'.setState .finWait2).bind
        (fun s => (s.setState .timeWait).bind (fun s => s.setStateClosed err))) :=
    fun s' hs' => (setState_restated hs' _).bind hlast
  unfold closeStates
  cases s.state with
  | listen => exact hclosed s hsame
  | synSent => exact hclosed s hsame
  | synReceived => exact (setState_restated hsame .finWait1).bind hmiddle
  | established => exact (setState_restated hsame .finWait1).bind hmiddle
  | closed => exact hclosed s hsame
  | finWait1 => exact hmiddle s hsame
  | finWait2 => exact hlast s hsame
  | closing => exact hlast s hsame
  | timeWait => exact hclosed s hsame
  | closeWait => exact (setState_restated hsame .lastAck).bind hclosed
  | lastAck => exact hclosed s hsame

theorem sendLoop_sent {sflags : SendFlags} {fuel : ℕ} :
    Gives (Sent now s) (sendLoop E now fuel s sflags) := by
  induction fuel generalizing s sflags with
  | zero => exact gives_none
  | succ fuel ih =>
    rw [sendLoop]
    dsimp only
    by_cases hdup : sflags = .duplicateAck
    · rw [if_pos hdup]
      exact ackPacket_sent.bind (fun s₁ hs₁ => ih.imp (fun s₂ hs₂ => hs₁.trans hs₂))
    · rw [if_neg hdup]
      by_cases hidle : s.available = 0 ∧ sflags ≠ .fin ∧ sflags ≠ .rst
      · rw [if_pos hidle]
        split_ifs with hnone hack
        · exact gives_some (.refl now s)
        · exact ackPacket_sent
        · refine gives_some ⟨id, rfl, rfl, rfl, rfl, rfl, rfl, rfl, rfl, id, ?_, id, .refl _⟩
          exact fun T hT h => ⟨hT, h.rtoBase, h.lastsend⟩
      · rw [if_neg hidle]
        by_cases hnagle : s.congestion.useNagling ∧ sflags ≠ .fin ∧ sflags ≠ .rst ∧
            s.outgoing.sndUna < s.outgoing.sndNxt ∧ s.available < s.congestion.mss
        · rw [if_pos hnagle]
          exact gives_some (.refl now s)
        · rw [if_neg hnagle]
          cases s.outgoing.unsentSlist with
          | nil => exact gives_some (.refl now s)
          | cons i rest =>
            cases hfind : s.segment? i with
            | none =>
              dsimp only
              rw [hfind]
              exact gives_none
            | some g =>
              dsimp only
              rw [hfind, Option.bind_eq_bind, Option.bind_some]
              have hcut : Sent now s (if s.available < g.len ∧ sflags ≠ .fin ∧ sflags ≠ .rst then
                  s.cutSegment g s.available 0 else s) := by
                split_ifs with hpart
                · exact cutSegment_sent (List.mem_of_find?_eq_some hfind) _ (fun _ => Nat.zero_le _)
                · exact .refl now s
              refine transmit_sent.bind ?_
              rintro ⟨err, s₁⟩ hs₁
              have hsent := hcut.trans hs₁.1
              dsimp only at hsent ⊢
              by_cases herr : err = .ok
              · rw [if_neg (not_not.mpr herr)]
                exact ih.imp (fun s₂ hs₂ => hsent.trans hs₂)
              · rw [if_pos herr]
                exact (closeStates_sent s₁ err).imp (fun s₂ hs₂ => hsent.trans hs₂.1)

theorem attemptSend_sent {sflags : SendFlags} :
    Gives (Sent (s.getCurrentTime E).1 s) (s.attemptSend E sflags) := by
  have hticked : Sent (s.getCurrentTime E).1 s (s.getCurrentTime E).2 := getCurrentTime_sent E s
  unfold attemptSend
  dsimp only
  generalize s.getCurrentTime E = r at hticked ⊢
  obtain ⟨now, s₁⟩ := r
  dsimp only at hticked ⊢
  have hstart : Sent now s (if (s₁.timing.rxRto.toNat : ℤ) < timeDiff now s₁.outgoing.lastsend then
      { s₁ with congestion.cwnd := s₁.congestion.mss } else s₁) := by
    split_ifs with hlong
    · have hslow : Packed now s₁ { s₁ with congestion.cwnd := s₁.congestion.mss } :=
        .sized s₁ _ rfl rfl id
      exact hticked.trans hslow.toSent
    · exact hticked
  exact sendLoop_sent.imp (fun s₂ hs₂ => hstart.trans hs₂)

end Sending

end Carrier.Session
