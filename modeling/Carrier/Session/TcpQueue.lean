import Carrier.Lib.Run
import Carrier.Session.TcpInput
import Carrier.Session.TcpSegments

/-! The send queue of a pseudo-TCP socket: its segments lie one behind the other, those that have
been transmitted before those that have not. -/
namespace Carrier.Session
open Carrier.Lib PseudoTcpSocket

/-- Segments one behind the other, from one number of the stream to another. -/
def Tiles : ℕ → List SSegment → ℕ → Prop
  | a, [], b => a = b
  | a, g :: l, b => g.seq.toNat = a ∧ Tiles (a + g.len.toNat) l b

theorem tiles_append {a c : ℕ} {l l' : List SSegment} :
    Tiles a (l ++ l') c ↔ ∃ b, Tiles a l b ∧ Tiles b l' c := by
  induction l generalizing a with
  | nil => simp [Tiles]
  | cons g l ih =>
    rw [List.cons_append, Tiles, ih]
    simp only [Tiles, and_assoc, exists_and_left]

theorem Tiles.le {a b : ℕ} {l : List SSegment} (h : Tiles a l b) : a ≤ b := by
  induction l generalizing a with
  | nil => exact le_of_eq h
  | cons g l ih =>
    have hrest := ih h.2
    omega

theorem Tiles.head {a b : ℕ} {g : SSegment} {l : List SSegment} (h : Tiles a (g :: l) b) :
    g.seq.toNat = a ∧ a + g.len.toNat ≤ b := ⟨h.1, h.2.le⟩

/-- The segments that a stream has: the connect message at its beginning, data behind it, and
`RST` segments without any. -/
def Allowed (flags : UInt8) (seq len : ℕ) : Prop :=
  flags = FLAG_CTL ∧ seq = 0 ∧ len = 7 ∨ flags = FLAG_NONE ∧ 7 ≤ seq ∨ flags = FLAG_RST ∧ len = 0

def SSegment.Allowed (g : SSegment) : Prop := Session.Allowed g.flags g.seq.toNat g.len.toNat

section Lists

variable {pre post : List SSegment} {g : SSegment}

theorem ids_ne (h : ((pre ++ g :: post).map SSegment.id).Nodup) :
    (∀ x ∈ pre, x.id ≠ g.id) ∧ ∀ x ∈ post, x.id ≠ g.id := by
  rw [List.map_append, List.map_cons, List.nodup_append] at h
  obtain ⟨-, hpost, hpre⟩ := h
  rw [List.nodup_cons] at hpost
  constructor
  · intro x hx heq
    exact hpre x.id (List.mem_map_of_mem hx) g.id List.mem_cons_self heq
  · intro x hx heq
    exact hpost.1 (heq ▸ List.mem_map_of_mem hx)

theorem find?_id (h : ((pre ++ g :: post).map SSegment.id).Nodup) :
    (pre ++ g :: post).find? (fun x => x.id = g.id) = some g := by
  rw [List.find?_append, List.find?_eq_none.mpr, List.find?_cons]
  · simp
  · intro x hx
    simpa using (ids_ne h).1 x hx

theorem map_id (h : ((pre ++ g :: post).map SSegment.id).Nodup) (f : SSegment → SSegment) :
    (pre ++ g :: post).map (fun x => if x.id = g.id then f x else x) = pre ++ f g :: post := by
  have hrest {l : List SSegment} (hl : ∀ x ∈ l, x.id ≠ g.id) :
      l.map (fun x => if x.id = g.id then f x else x) = l := by
    nth_rewrite 2 [← List.map_id' l]
    exact List.map_congr_left (fun x hx => if_neg (hl x hx))
  rw [List.map_append, List.map_cons, hrest (ids_ne h).1, hrest (ids_ne h).2, if_pos rfl]

theorem insertAfter_eq {α : Type*} {p : α → Bool} {pre post : List α} {y : α}
    (hpre : ∀ a ∈ pre, p a = false) (hy : p y = true) (x : α) :
    insertAfter p x (pre ++ y :: post) = pre ++ y :: x :: post := by
  have hnot : ∀ a ∈ pre, (!p a) = true := by
    intro a ha
    rw [hpre a ha]
    rfl
  rw [insertAfter, List.dropWhile_append_of_pos hnot, List.takeWhile_append_of_pos hnot,
    List.dropWhile_cons_of_neg (by simp [hy]), List.takeWhile_cons_of_neg (by simp [hy]),
    List.append_nil]

/-- Both halves of a cut segment in its place. -/
theorem insertAfter_cut (h : ((pre ++ g :: post).map SSegment.id).Nodup) (n : BitVec 32)
    (subseg : SSegment) :
    insertAfter (fun x => x.id = g.id) subseg
        ((pre ++ g :: post).map (fun x => if x.id = g.id then { x with len := n } else x)) =
      pre ++ { g with len := n } :: subseg :: post := by
  rw [map_id h, insertAfter_eq]
  · intro x hx
    simpa using (ids_ne h).1 x hx
  · simp

end Lists

/-- Segments with addresses of their own. -/
structure Stocked (l : List SSegment) (nextId : ℕ) : Prop where
  nodup : (l.map SSegment.id).Nodup
  fresh : ∀ g ∈ l, g.id < nextId
  allowed : ∀ g ∈ l, g.Allowed

namespace Stocked

variable {pre post : List SSegment} {g : SSegment} {nextId : ℕ}

theorem insert (h : Stocked (pre ++ post) nextId) (hid : g.id = nextId) (hg : g.Allowed) :
    Stocked (pre ++ g :: post) (nextId + 1) := by
  have hperm : (pre ++ g :: post).Perm (g :: (pre ++ post)) := List.perm_middle
  constructor
  · rw [(hperm.map SSegment.id).nodup_iff, List.map_cons, List.nodup_cons]
    refine ⟨?_, h.nodup⟩
    intro hmem
    obtain ⟨x, hx, heq⟩ := List.mem_map.mp hmem
    have hlt := h.fresh x hx
    omega
  · intro x hx
    obtain rfl | hx := List.mem_cons.mp (hperm.mem_iff.mp hx)
    · omega
    · exact (h.fresh x hx).trans (Nat.lt_succ_self _)
  · intro x hx
    obtain rfl | hx := List.mem_cons.mp (hperm.mem_iff.mp hx)
    · exact hg
    · exact h.allowed x hx

theorem replace (h : Stocked (pre ++ g :: post) nextId) {g' : SSegment} (hid : g'.id = g.id)
    (hg : g'.Allowed) : Stocked (pre ++ g' :: post) nextId := by
  have hmem : ∀ x ∈ pre ++ g' :: post, x = g' ∨ x ∈ pre ++ g :: post := by
    intro x hx
    simp only [List.mem_append, List.mem_cons] at hx ⊢
    tauto
  constructor
  · have hmap : (pre ++ g' :: post).map SSegment.id = (pre ++ g :: post).map SSegment.id := by
      simp [hid]
    rw [hmap]
    exact h.nodup
  · intro x hx
    obtain rfl | hx := hmem x hx
    · rw [hid]
      exact h.fresh g (by simp)
    · exact h.fresh x hx
  · intro x hx
    obtain rfl | hx := hmem x hx
    · exact hg
    · exact h.allowed x hx

theorem head (h : Stocked (pre ++ g :: post) nextId) : g.Allowed := h.allowed g (by simp)

theorem tail (h : Stocked (g :: post) nextId) : Stocked post nextId :=
  ⟨(List.nodup_cons.mp h.nodup).2, fun x hx => h.fresh x (List.mem_cons_of_mem _ hx),
    fun x hx => h.allowed x (List.mem_cons_of_mem _ hx)⟩

end Stocked

/-- The second half of a segment that is cut behind its first `n` bytes. -/
def subsegment (g : SSegment) (nextId : ℕ) (n : BitVec 32) : SSegment :=
  ⟨nextId, g.seq + n, g.len - n, g.xmit, g.flags⟩

/-- The send queue of a stream of `len` bytes, of which those from `una` to `nxt` are under way. -/
structure SendQueue (slist : List SSegment) (unsentSlist : List ℕ) (nextId una nxt len : ℕ)
    (sent unsent : List SSegment) : Prop where
  slist : slist = sent ++ unsent
  ids : unsentSlist = unsent.map SSegment.id
  stocked : Stocked (sent ++ unsent) nextId
  xmit : ∀ g ∈ sent, g.xmit ≠ 0
  unsent_xmit : ∀ g ∈ unsent, g.xmit = 0
  sentTiles : Tiles una sent nxt
  unsentTiles : Tiles nxt unsent len

namespace SendQueue

variable {slist : List SSegment} {unsentSlist : List ℕ} {nextId una nxt len : ℕ}
  {sent unsent : List SSegment} {g : SSegment} {n : BitVec 32}

theorem una_le (h : SendQueue slist unsentSlist nextId una nxt len sent unsent) : una ≤ nxt :=
  h.sentTiles.le

theorem nxt_le (h : SendQueue slist unsentSlist nextId una nxt len sent unsent) : nxt ≤ len :=
  h.unsentTiles.le

/-- A segment behind the last one. -/
theorem push (h : SendQueue slist unsentSlist nextId una nxt len sent unsent)
    (hid : g.id = nextId) (hseq : g.seq.toNat = len) (hxmit : g.xmit = 0) (hg : g.Allowed) :
    SendQueue (slist ++ [g]) (unsentSlist ++ [nextId]) (nextId + 1) una nxt (len + g.len.toNat) sent
      (unsent ++ [g]) := by
  refine ⟨?_, ?_, ?_, h.xmit, ?_, h.sentTiles, ?_⟩
  · rw [h.slist, List.append_assoc]
  · rw [h.ids, List.map_append, List.map_singleton, hid]
  · rw [← List.append_assoc]
    apply Stocked.insert _ hid hg
    rw [List.append_nil]
    exact h.stocked
  · intro x hx
    obtain hx | hx := List.mem_append.mp hx
    · exact h.unsent_xmit x hx
    · rw [List.mem_singleton.mp hx, hxmit]
  · rw [tiles_append]
    exact ⟨len, h.unsentTiles, hseq, rfl⟩

/-- More data in the last segment, which has not been transmitted yet. -/
theorem grow (h : SendQueue slist unsentSlist nextId una nxt len sent (unsent ++ [g]))
    (g' : SSegment) (hid : g'.id = g.id) (hseq : g'.seq = g.seq) (hxmit : g'.xmit = g.xmit)
    (hle : g.len.toNat ≤ g'.len.toNat) (hg : g'.Allowed) :
    SendQueue (sent ++ (unsent ++ [g'])) unsentSlist nextId una nxt
      (len + (g'.len.toNat - g.len.toNat)) sent (unsent ++ [g']) := by
  obtain ⟨b, hbefore, hlast, hend⟩ := tiles_append.mp h.unsentTiles
  have hstocked := h.stocked
  rw [← List.append_assoc] at hstocked
  refine ⟨rfl, ?_, ?_, h.xmit, ?_, h.sentTiles, ?_⟩
  · rw [h.ids, List.map_append, List.map_append, List.map_singleton, List.map_singleton, hid]
  · rw [← List.append_assoc]
    exact hstocked.replace hid hg
  · intro x hx
    obtain hx | hx := List.mem_append.mp hx
    · exact h.unsent_xmit x (List.mem_append_left _ hx)
    · rw [List.mem_singleton.mp hx, hxmit]
      exact h.unsent_xmit g (by simp)
  · rw [tiles_append]
    refine ⟨b, hbefore, ?_, ?_⟩
    · rw [hseq, hlast]
    · change b + g.len.toNat = len at hend
      change b + g'.len.toNat = _
      omega

theorem tiles_cut {a b : ℕ} {l : List SSegment} (h : Tiles a (g :: l) b) (hb : b < 2 ^ 32)
    (hn : n < g.len) (nextId : ℕ) :
    Tiles a ({ g with len := n } :: subsegment g nextId n :: l) b ∧
      g.seq.toNat ≤ (subsegment g nextId n).seq.toNat := by
  obtain ⟨hstart, hle⟩ := h.head
  have hseq : (subsegment g nextId n).seq.toNat = a + n.toNat := by
    change (g.seq + n).toNat = a + n.toNat
    bv_omega
  have hsum : a + n.toNat + (subsegment g nextId n).len.toNat = a + g.len.toNat := by
    change a + n.toNat + (g.len - n).toNat = a + g.len.toNat
    bv_omega
  refine ⟨⟨hstart, hseq, ?_⟩, by omega⟩
  change Tiles (a + n.toNat + (subsegment g nextId n).len.toNat) l b
  rw [hsum]
  exact h.2

theorem allowed_cut (hg : g.Allowed) (hctl : g.flags ≠ FLAG_CTL) (hn : n < g.len)
    (hseq : g.seq.toNat ≤ (subsegment g nextId n).seq.toNat) :
    SSegment.Allowed { g with len := n } ∧ (subsegment g nextId n).Allowed := by
  obtain ⟨h, -⟩ | ⟨h, hlow⟩ | ⟨-, h⟩ := hg
  · exact absurd h hctl
  · exact ⟨.inr (.inl ⟨h, hlow⟩), .inr (.inl ⟨h, hlow.trans hseq⟩)⟩
  · bv_omega

section Cut

variable (hlen : len < 2 ^ 32) (hctl : g.flags ≠ FLAG_CTL) (hn : n < g.len)
include hlen hctl hn

/-- The first segment that has not been transmitted, cut in two. -/
theorem cutUnsent (h : SendQueue slist unsentSlist nextId una nxt len sent (g :: unsent)) :
    SendQueue
      (insertAfter (fun x => x.id = g.id) (subsegment g nextId n)
        (slist.map (fun x => if x.id = g.id then { x with len := n } else x)))
      (insertAfter (· = g.id) nextId unsentSlist) (nextId + 1) una nxt len sent
      ({ g with len := n } :: subsegment g nextId n :: unsent) := by
  obtain ⟨htiles, hseq⟩ := tiles_cut h.unsentTiles hlen hn nextId
  have hallowed := allowed_cut h.stocked.head hctl hn hseq
  refine ⟨?_, ?_, ?_, h.xmit, ?_, h.sentTiles, htiles⟩
  · rw [h.slist, insertAfter_cut h.stocked.nodup]
  · have hnone : ∀ i ∈ ([] : List ℕ), decide (i = g.id) = false := by simp
    rw [h.ids, List.map_cons]
    exact insertAfter_eq hnone (by simp) _
  · have hreplaced : Stocked (sent ++ { g with len := n } :: unsent) nextId :=
      h.stocked.replace rfl hallowed.1
    rw [← List.singleton_append, ← List.append_assoc] at hreplaced ⊢
    exact hreplaced.insert rfl hallowed.2
  · intro x hx
    obtain rfl | hx := List.mem_cons.mp hx
    · exact h.unsent_xmit g List.mem_cons_self
    · obtain rfl | hx := List.mem_cons.mp hx
      · exact h.unsent_xmit g List.mem_cons_self
      · exact h.unsent_xmit x (List.mem_cons_of_mem _ hx)

/-- The first segment under way, cut in two. -/
theorem cutSent (h : SendQueue slist unsentSlist nextId una nxt len (g :: sent) unsent) :
    SendQueue
      (insertAfter (fun x => x.id = g.id) (subsegment g nextId n)
        (slist.map (fun x => if x.id = g.id then { x with len := n } else x)))
      unsentSlist (nextId + 1) una nxt len ({ g with len := n } :: subsegment g nextId n :: sent)
      unsent := by
  have hnxt := h.nxt_le
  obtain ⟨htiles, hseq⟩ := tiles_cut h.sentTiles (by omega) hn nextId
  have hstocked : Stocked ([] ++ g :: (sent ++ unsent)) nextId := h.stocked
  have hallowed := allowed_cut hstocked.head hctl hn hseq
  refine ⟨?_, h.ids, ?_, ?_, h.unsent_xmit, htiles, h.unsentTiles⟩
  · rw [h.slist]
    exact insertAfter_cut hstocked.nodup n (subsegment g nextId n)
  · have hreplaced : Stocked ([{ g with len := n }] ++ (sent ++ unsent)) nextId :=
      hstocked.replace rfl hallowed.1
    exact hreplaced.insert rfl hallowed.2
  · intro x hx
    obtain rfl | hx := List.mem_cons.mp hx
    · exact h.xmit g List.mem_cons_self
    · obtain rfl | hx := List.mem_cons.mp hx
      · exact h.xmit g List.mem_cons_self
      · exact h.xmit x (List.mem_cons_of_mem _ hx)

end Cut

/-- The first segment that has not been transmitted goes out. -/
theorem first (h : SendQueue slist unsentSlist nextId una nxt len sent (g :: unsent)) {nxt' : ℕ}
    (hnxt : nxt' = nxt + g.len.toNat) :
    SendQueue (slist.map (fun x => if x.id = g.id then { x with xmit := x.xmit + 1 } else x))
      unsentSlist.tail nextId una nxt' len (sent ++ [{ g with xmit := g.xmit + 1 }]) unsent := by
  subst hnxt
  refine ⟨?_, ?_, ?_, ?_, ?_, ?_, h.unsentTiles.2⟩
  · rw [h.slist, map_id h.stocked.nodup (fun x => { x with xmit := x.xmit + 1 }), List.append_assoc,
      List.singleton_append]
  · rw [h.ids, List.map_cons, List.tail_cons]
  · rw [List.append_assoc, List.singleton_append]
    exact h.stocked.replace (g := g) rfl h.stocked.head
  · intro x hx
    obtain hx | hx := List.mem_append.mp hx
    · exact h.xmit x hx
    · rw [List.mem_singleton.mp hx]
      exact Nat.succ_ne_zero _
  · intro x hx
    exact h.unsent_xmit x (List.mem_cons_of_mem _ hx)
  · rw [tiles_append]
    exact ⟨nxt, h.sentTiles, h.unsentTiles.1, rfl⟩

theorem again (h : SendQueue slist unsentSlist nextId una nxt len (g :: sent) unsent) :
    SendQueue (slist.map (fun x => if x.id = g.id then { x with xmit := x.xmit + 1 } else x))
      unsentSlist nextId una nxt len ({ g with xmit := g.xmit + 1 } :: sent) unsent := by
  have hstocked : Stocked ([] ++ g :: (sent ++ unsent)) nextId := h.stocked
  refine ⟨?_, h.ids, ?_, ?_, h.unsent_xmit, ⟨h.sentTiles.1, h.sentTiles.2⟩, h.unsentTiles⟩
  · rw [h.slist]
    exact map_id hstocked.nodup (fun x => { x with xmit := x.xmit + 1 })
  · exact hstocked.replace (g := g) rfl hstocked.head
  · intro x hx
    obtain rfl | hx := List.mem_cons.mp hx
    · exact Nat.succ_ne_zero _
    · exact h.xmit x (List.mem_cons_of_mem _ hx)

theorem find_unsent (h : SendQueue slist unsentSlist nextId una nxt len sent (g :: unsent)) :
    slist.find? (fun x => x.id = g.id) = some g := by
  rw [h.slist]
  exact find?_id h.stocked.nodup

theorem find_sent (h : SendQueue slist unsentSlist nextId una nxt len (g :: sent) unsent) :
    slist.find? (fun x => x.id = g.id) = some g := by
  have hstocked : Stocked ([] ++ g :: (sent ++ unsent)) nextId := h.stocked
  rw [h.slist]
  exact find?_id hstocked.nodup

end SendQueue

/-- What an acknowledgment frees: whole segments, and a part of the last one. -/
theorem freeSegments_spec {sent unsent : List SSegment} {una nxt nextId : ℕ} {nFree : BitVec 32}
    (largest : BitVec 32) (htiles : Tiles una sent nxt) (hnxt : nxt < 2 ^ 32) (hfree : una + nFree.toNat ≤ nxt)
    (hctl : ∀ g ∈ sent, g.flags = FLAG_CTL → g.seq.toNat + g.len.toNat ≤ una + nFree.toNat)
    (hxmit : ∀ g ∈ sent, g.xmit ≠ 0) (hstocked : Stocked (sent ++ unsent) nextId) :
    Yields (fun r => ∃ sent', r.1 = sent' ++ unsent ∧ Tiles (una + nFree.toNat) sent' nxt ∧
        (∀ g ∈ sent', g.xmit ≠ 0) ∧ Stocked (sent' ++ unsent) nextId)
      (freeSegments nFree (sent ++ unsent) largest) := by
  induction sent generalizing una nFree largest with
  | nil =>
    have hzero : nFree = 0 := by
      have heq : una = nxt := htiles
      bv_omega
    have hstop : freeSegments nFree unsent largest = some (unsent, largest) := by
      cases unsent with
      | nil => rw [freeSegments, if_pos hzero]
      | cons g l => rw [freeSegments, if_pos hzero]
    refine ⟨(unsent, largest), hstop, [], rfl, ?_, hxmit, hstocked⟩
    change una + nFree.toNat = nxt
    rw [show una = nxt from htiles, hzero]
    rfl
  | cons g sent ih =>
    obtain ⟨hstart, hend⟩ := htiles.head
    have hstocked' : Stocked ([] ++ g :: (sent ++ unsent)) nextId := hstocked
    rw [List.cons_append, freeSegments]
    split_ifs with hzero hpart
    · refine yields_some ⟨g :: sent, rfl, ?_, hxmit, hstocked⟩
      rw [hzero]
      exact htiles
    · -- The acknowledgment ends within the segment, which has data then.
      refine yields_some ⟨{ g with len := g.len - nFree, seq := g.seq + nFree } :: sent, rfl, ?_, ?_, ?_⟩
      · refine ⟨?_, ?_⟩
        · change (g.seq + nFree).toNat = una + nFree.toNat
          bv_omega
        · have hsum : una + nFree.toNat + (g.len - nFree).toNat = una + g.len.toNat := by bv_omega
          change Tiles (una + nFree.toNat + (g.len - nFree).toNat) sent nxt
          rw [hsum]
          exact htiles.2
      · intro x hx
        obtain rfl | hx := List.mem_cons.mp hx
        · exact hxmit g List.mem_cons_self
        · exact hxmit x (List.mem_cons_of_mem _ hx)
      · refine hstocked'.replace (g := g) rfl ?_
        obtain ⟨h, -⟩ | ⟨h, hlow⟩ | ⟨-, h⟩ := hstocked'.head
        · have hwhole := hctl g List.mem_cons_self h
          bv_omega
        · refine .inr (.inl ⟨h, ?_⟩)
          change 7 ≤ (g.seq + nFree).toNat
          bv_omega
        · bv_omega
    · have hsum : una + g.len.toNat + (nFree - g.len).toNat = una + nFree.toNat := by bv_omega
      rw [← hsum] at hfree hctl ⊢
      exact ih _ htiles.2 hfree (fun x hx => hctl x (List.mem_cons_of_mem _ hx))
        (fun x hx => hxmit x (List.mem_cons_of_mem _ hx)) hstocked.tail

end Carrier.Session
