import Carrier.Session.FlexBuffer

/-! `multiplex_handler_notify_data`: reassembly of packets from a byte stream. The loop is
first brought down to byte lists; the framing argument is then about lists only. -/
namespace Carrier.Session
open Carrier.Lib

variable {H : Type*}

def protocolHeadLen : ℕ := 8

/-- The `payload_len` field of a packed `ProtocolBuffer`, in network order. -/
def payloadLen (p : Bytes) : ℕ := ofBE (readAt p 6 2)

/-- What `multiplex_handler_notify_packet` is to the loop: it acts on the handler through the
bytes of the packet, and may rewrite the buffer but not move its storage. -/
structure PacketSink (H : Type*) where
  deliver : H → Bytes → H
  scribble : H → FlexBuffer → FlexBuffer
  scribble_capacity : ∀ h b, (scribble h b).capacity = b.capacity
  scribble_storage : ∀ h b, (scribble h b).buffer.length = b.buffer.length

/-- The length checks at the head of `multiplex_handler_notify_packet`. -/
def checkedDeliver (dispatch : H → Bytes → H) (h : H) (p : Bytes) : H :=
  if p.length < protocolHeadLen then h
  else if p.length ≠ payloadLen p + protocolHeadLen then h
  else dispatch h p

/-- The body of the `while` loop, up to `fuel` rounds; `none` when they do not suffice. -/
def notifyDataLoop (sink : PacketSink H) : ℕ → H → FlexBuffer → FlexBuffer → Option (H × FlexBuffer)
  | 0, _, _, _ => none
  | fuel + 1, h, inc, buf =>
    if buf.size = 0 then some (h, inc)
    else if inc.size + buf.size < protocolHeadLen then some (h, flexBufferAppend inc buf)
    else
      let append := protocolHeadLen - inc.size
      let (inc, buf) := if inc.size < protocolHeadLen
        then (flexBufferAppend2 inc buf append, flexBufferForwardOffset buf append)
        else (inc, buf)
      let len := payloadLen inc.payload
      if len + protocolHeadLen > inc.size + buf.size then some (h, flexBufferAppend inc buf)
      else
        let append := len + protocolHeadLen - inc.size
        let (inc, buf) := if len + protocolHeadLen > inc.size
          then (flexBufferAppend2 inc buf append, flexBufferForwardOffset buf append)
          else (inc, buf)
        notifyDataLoop sink fuel (sink.deliver h inc.payload)
          (flexBufferReset (sink.scribble h inc) flexPaddingLen) buf

/-- Every round but the first takes at least one byte of `buf`. -/
def multiplexHandlerNotifyData (sink : PacketSink H) (h : H) (inc buf : FlexBuffer) :
    Option (H × FlexBuffer) :=
  notifyDataLoop sink (buf.size + 2) h inc buf

/-- One call per chunk the transport hands up. -/
def notifyDataChunks (sink : PacketSink H) (h : H) (inc : FlexBuffer) (bufs : List FlexBuffer) :
    Option (H × FlexBuffer) :=
  bufs.foldlM (fun r buf => multiplexHandlerNotifyData sink r.1 r.2 buf) (h, inc)

/-- `flex_buffer_available` of the reassembly buffer when it is empty. -/
def reassemblySpace : ℕ := flexBufferMaxLen - flexPaddingLen

/-- The reassembly buffer as `multiplex_handler_create` and every reset leave it placed. -/
structure Incomplete (inc : FlexBuffer) : Prop where
  wf : inc.WF
  capacity : inc.capacity = flexBufferMaxLen
  offset : inc.offset = flexPaddingLen

/-- Bytes kept when `bs` is appended to the `p` already held. -/
def keep (p bs : Bytes) : Bytes := p ++ bs.take (reassemblySpace - p.length)

/-- The same loop on the bytes alone. -/
def feedLoop (deliver : H → Bytes → H) : ℕ → H → Bytes → Bytes → Option (H × Bytes)
  | 0, _, _, _ => none
  | fuel + 1, h, p, c =>
    if c = [] then some (h, p)
    else if p.length + c.length < protocolHeadLen then some (h, keep p c)
    else
      let k := protocolHeadLen - p.length
      let p := keep p (c.take k)
      let c := c.drop k
      let len := payloadLen p
      if len + protocolHeadLen > p.length + c.length then some (h, keep p c)
      else
        let k := len + protocolHeadLen - p.length
        feedLoop deliver fuel (deliver h (keep p (c.take k))) [] (c.drop k)

theorem Incomplete.space {inc : FlexBuffer} (h : Incomplete inc) :
    inc.capacity - inc.offset - inc.size = reassemblySpace - inc.payload.length := by
  rw [h.capacity, h.offset, h.wf.length_payload, reassemblySpace]

theorem Incomplete.length_le {inc : FlexBuffer} (h : Incomplete inc) :
    inc.payload.length ≤ reassemblySpace := by
  have h1 := h.wf.bound
  rw [h.capacity, h.offset] at h1
  rw [h.wf.length_payload, reassemblySpace]
  omega

theorem Incomplete.append2 {inc buf : FlexBuffer} (h : Incomplete inc) (hb : buf.WF) {k : ℕ}
    (hk : k ≤ buf.size) :
    Incomplete (flexBufferAppend2 inc buf k) ∧
      (flexBufferAppend2 inc buf k).payload = keep inc.payload (buf.payload.take k) := by
  obtain ⟨h1, h2, h3, h4⟩ := flexBufferAppend2_spec h.wf hb hk
  refine ⟨⟨h1, h2.trans h.capacity, h3.trans h.offset⟩, ?_⟩
  rw [h4, h.space, keep, List.take_take, min_comm]

theorem Incomplete.append {inc buf : FlexBuffer} (h : Incomplete inc) (hb : buf.WF) :
    Incomplete (flexBufferAppend inc buf) ∧
      (flexBufferAppend inc buf).payload = keep inc.payload buf.payload := by
  obtain ⟨h1, h2⟩ := h.append2 hb (le_refl buf.size)
  refine ⟨h1, ?_⟩
  rw [flexBufferAppend, h2, ← hb.length_payload, List.take_length]

theorem Incomplete.reset {inc : FlexBuffer} (h : Incomplete inc) (sink : PacketSink H) (s : H) :
    Incomplete (flexBufferReset (sink.scribble s inc) flexPaddingLen) := by
  have hc := (sink.scribble_capacity s inc).trans h.capacity
  refine ⟨flexBufferReset_wf ?_ ?_ ?_, hc, rfl⟩
  · rw [sink.scribble_storage, sink.scribble_capacity, h.wf.storage]
  · rw [hc]
    decide
  · rw [hc]
    decide

/-- The two conditional appends of the loop are one operation: with nothing missing, nothing
moves. -/
private theorem fill_spec {inc buf : FlexBuffer} (h : Incomplete inc) (hb : buf.WF) {n : ℕ}
    (hn : n ≤ inc.size + buf.size) :
    let r := if inc.size < n
      then (flexBufferAppend2 inc buf (n - inc.size), flexBufferForwardOffset buf (n - inc.size))
      else (inc, buf)
    Incomplete r.1 ∧ r.2.WF ∧
      r.1.payload = keep inc.payload (buf.payload.take (n - inc.payload.length)) ∧
      r.2.payload = buf.payload.drop (n - inc.payload.length) := by
  have hlen := h.wf.length_payload
  split_ifs with hlt
  · obtain ⟨h1, h2⟩ := h.append2 hb (show n - inc.size ≤ buf.size by omega)
    refine ⟨h1, flexBufferForwardOffset_wf hb (by omega), ?_, ?_⟩
    · rw [h2, hlen]
    · rw [flexBufferForwardOffset_payload hb (by omega), hlen]
  · have hz : n - inc.payload.length = 0 := by omega
    refine ⟨h, hb, ?_, ?_⟩ <;> simp [hz, keep]

/-- The loop on buffers is the loop on bytes. -/
theorem notifyDataLoop_refines (sink : PacketSink H) (fuel : ℕ) (h : H) {inc buf : FlexBuffer}
    (hi : Incomplete inc) (hb : buf.WF) {h' : H} {p : Bytes}
    (hf : feedLoop sink.deliver fuel h inc.payload buf.payload = some (h', p)) :
    ∃ inc', Incomplete inc' ∧ inc'.payload = p ∧
      notifyDataLoop sink fuel h inc buf = some (h', inc') := by
  induction fuel generalizing h inc buf with
  | zero => cases hf
  | succ fuel ih =>
    have hli := hi.wf.length_payload
    have hlb := hb.length_payload
    rw [feedLoop] at hf
    rw [notifyDataLoop]
    by_cases hz : buf.size = 0
    · have hnil : buf.payload = [] := List.length_eq_zero_iff.mp (by omega)
      rw [if_pos hnil] at hf
      cases hf
      exact ⟨inc, hi, rfl, by rw [if_pos hz]⟩
    have hnn : buf.payload ≠ [] := fun he => hz (by rw [he] at hlb; exact hlb.symm)
    rw [if_neg hnn] at hf
    rw [if_neg hz]
    by_cases hhead : inc.size + buf.size < protocolHeadLen
    · rw [if_pos (by rw [hli, hlb]; exact hhead)] at hf
      cases hf
      obtain ⟨h1, h2⟩ := hi.append hb
      exact ⟨_, h1, h2, by rw [if_pos hhead]⟩
    rw [if_neg (by rw [hli, hlb]; exact hhead)] at hf
    rw [if_neg hhead]
    -- The header is complete from here on, in `r.1`; `r.2` is what is left of the chunk.
    obtain ⟨hr1, hr2, hp1, hp2⟩ := fill_spec hi hb (n := protocolHeadLen) (by omega)
    simp only at hf ⊢
    revert hr1 hr2 hp1 hp2
    generalize (if inc.size < protocolHeadLen then
      (flexBufferAppend2 inc buf (protocolHeadLen - inc.size),
        flexBufferForwardOffset buf (protocolHeadLen - inc.size)) else (inc, buf)) = r
    intro hr1 hr2 hp1 hp2
    rw [← hp1, ← hp2, hr1.wf.length_payload, hr2.length_payload] at hf
    by_cases hmore : payloadLen r.1.payload + protocolHeadLen > r.1.size + r.2.size
    · rw [if_pos hmore] at hf
      cases hf
      obtain ⟨h1, h2⟩ := hr1.append hr2
      exact ⟨_, h1, h2, by rw [if_pos hmore]⟩
    rw [if_neg hmore] at hf
    rw [if_neg hmore]
    obtain ⟨hq1, hq2, hs1, hs2⟩ := fill_spec hr1 hr2
      (n := payloadLen r.1.payload + protocolHeadLen) (by omega)
    rw [hr1.wf.length_payload] at hs1 hs2
    revert hq1 hq2 hs1 hs2
    generalize (if r.1.size < payloadLen r.1.payload + protocolHeadLen then
      (flexBufferAppend2 r.1 r.2 (payloadLen r.1.payload + protocolHeadLen - r.1.size),
        flexBufferForwardOffset r.2 (payloadLen r.1.payload + protocolHeadLen - r.1.size))
        else (r.1, r.2)) = q
    intro hq1 hq2 hs1 hs2
    rw [← hs1, ← hs2] at hf
    exact ih _ (hq1.reset sink h) hq2 (by rw [flexBufferReset_payload]; exact hf)

end Carrier.Session
