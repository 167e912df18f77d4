import Carrier.Session.Reassembly

/-! What the reassembly loop delivers for a stream of frames, however it is cut. -/
namespace Carrier.Session
open Carrier.Lib

variable {H : Type*}

/-- A header followed by as many bytes as it announces. -/
def IsFrame (f : Bytes) : Prop := f.length = payloadLen f + protocolHeadLen

instance (f : Bytes) : Decidable (IsFrame f) := inferInstanceAs (Decidable (_ = _))

def Fits (f : Bytes) : Prop := f.length ≤ reassemblySpace

instance (f : Bytes) : Decidable (Fits f) := inferInstanceAs (Decidable (_ ≤ _))

/-- A proper prefix of a frame. -/
def Partial (t : Bytes) : Prop := ∃ q, q ≠ [] ∧ IsFrame (t ++ q)

/-- The frames wholly among the first `n` bytes of the stream. -/
def completed : List Bytes → ℕ → List Bytes
  | [], _ => []
  | f :: fs, n => if n < f.length then [] else f :: completed fs (n - f.length)

/-- How many of the first `n` bytes belong to a frame that is not complete yet. -/
def openBytes : List Bytes → ℕ → ℕ
  | [], n => n
  | f :: fs, n => if n < f.length then n else openBytes fs (n - f.length)

theorem IsFrame.head_le {f : Bytes} (h : IsFrame f) : protocolHeadLen ≤ f.length := by
  unfold IsFrame at h
  omega

theorem IsFrame.length_pos {f : Bytes} (h : IsFrame f) : 0 < f.length :=
  lt_of_lt_of_le (by decide) h.head_le

theorem payloadLen_append {p : Bytes} (hp : protocolHeadLen ≤ p.length) (q : Bytes) :
    payloadLen (p ++ q) = payloadLen p := by
  have h8 : 8 ≤ p.length := hp
  rw [payloadLen, payloadLen, readAt, readAt, List.drop_append_of_le_length (by omega),
    List.take_append_of_le_length (by rw [List.length_drop]; omega)]

theorem nil_isPartial : Partial [] := ⟨List.replicate 8 0, by simp, by decide⟩

theorem Partial.of_append {t u : Bytes} (h : Partial (t ++ u)) : Partial t := by
  obtain ⟨q, hq, hf⟩ := h
  exact ⟨u ++ q, by simp [hq], by rwa [← List.append_assoc]⟩

/-- A frame that begins like a partial one reaches beyond it: both read one header. -/
theorem Partial.length_lt {p c g rest : Bytes} (hp : Partial p) (hg : IsFrame g)
    (h : p ++ c = g ++ rest) : p.length < g.length := by
  obtain ⟨q, hq, hf⟩ := hp
  by_contra hge
  have hpre : g <+: p := List.prefix_of_prefix_length_le ⟨rest, h.symm⟩ ⟨c, rfl⟩ (by omega)
  obtain ⟨u, rfl⟩ := hpre
  have hlen := payloadLen_append hg.head_le (u ++ q)
  have hpos : 0 < q.length := List.length_pos_iff.mpr hq
  unfold IsFrame at hf hg
  rw [List.append_assoc, hlen] at hf
  simp only [List.length_append] at hf
  omega

theorem keep_eq {p : Bytes} (hp : p.length ≤ reassemblySpace) (c : Bytes) :
    keep p c = (p ++ c).take reassemblySpace := by
  rw [keep, List.take_append, List.take_of_length_le hp]

/-- Topping up to the header: the bytes held grow by what the chunk gives up. -/
private theorem keep_head {p : Bytes} (hp : p.length ≤ reassemblySpace) (c : Bytes) :
    keep p (c.take (protocolHeadLen - p.length)) = p ++ c.take (protocolHeadLen - p.length) := by
  have h8 : protocolHeadLen ≤ reassemblySpace := by decide
  rw [keep_eq hp, List.take_of_length_le]
  rw [List.length_append, List.length_take]
  omega

/-- Bytes that do not finish the frame are stored, as far as there is room. -/
theorem feedLoop_unfinished (deliver : H → Bytes → H) (fuel : ℕ) (h : H) {p c : Bytes}
    (hp : p.length ≤ reassemblySpace) (hc : c ≠ []) (hpart : Partial (p ++ c)) :
    feedLoop deliver (fuel + 1) h p c = some (h, (p ++ c).take reassemblySpace) := by
  have h8 : protocolHeadLen ≤ reassemblySpace := by decide
  rw [feedLoop, if_neg hc]
  by_cases hlt : p.length + c.length < protocolHeadLen
  · rw [if_pos hlt, keep_eq hp]
  rw [if_neg hlt]
  simp only
  rw [keep_head hp]
  set k := protocolHeadLen - p.length
  have hsplit : p ++ c.take k ++ c.drop k = p ++ c := by
    rw [List.append_assoc, List.take_append_drop]
  have hlen : (p ++ c.take k).length ≤ reassemblySpace ∧
      protocolHeadLen ≤ (p ++ c.take k).length := by
    rw [List.length_append, List.length_take]
    omega
  obtain ⟨q, hq, hf⟩ := hpart
  have hpos : 0 < q.length := List.length_pos_iff.mpr hq
  have hmore : payloadLen (p ++ c.take k) + protocolHeadLen >
      (p ++ c.take k).length + (c.drop k).length := by
    have hpl := payloadLen_append hlen.2 (c.drop k ++ q)
    rw [← List.append_assoc, hsplit] at hpl
    have htot := congrArg List.length hsplit
    rw [List.length_append] at htot
    unfold IsFrame at hf
    rw [hpl, List.length_append] at hf
    omega
  rw [if_pos hmore, keep_eq hlen.1, hsplit]

/-- Bytes that finish the frame hand it over, as far as it was stored, and leave the rest. -/
theorem feedLoop_frame (deliver : H → Bytes → H) (fuel : ℕ) (h : H) {p q : Bytes} (rest : Bytes)
    (hp : p.length ≤ reassemblySpace) (hq : q ≠ []) (hf : IsFrame (p ++ q)) :
    feedLoop deliver (fuel + 1) h p (q ++ rest) =
      feedLoop deliver fuel (deliver h ((p ++ q).take reassemblySpace)) [] rest := by
  have h8 : protocolHeadLen ≤ reassemblySpace := by decide
  have hhead := hf.head_le
  rw [List.length_append] at hhead
  rw [feedLoop, if_neg (by simp [hq]), if_neg (by rw [List.length_append]; omega)]
  simp only
  rw [keep_head hp]
  set k := protocolHeadLen - p.length
  have hk : k ≤ q.length := by omega
  rw [List.take_append_of_le_length hk, List.drop_append_of_le_length hk]
  have hsplit : p ++ q.take k ++ q.drop k = p ++ q := by
    rw [List.append_assoc, List.take_append_drop]
  have hlen : (p ++ q.take k).length ≤ reassemblySpace ∧
      protocolHeadLen ≤ (p ++ q.take k).length := by
    rw [List.length_append, List.length_take]
    omega
  have hpl : payloadLen (p ++ q.take k) + protocolHeadLen = (p ++ q).length := by
    have := payloadLen_append hlen.2 (q.drop k)
    rw [hsplit] at this
    rw [← this]
    exact hf.symm
  have htot := congrArg List.length hsplit
  rw [List.length_append] at htot
  have hdone : ¬payloadLen (p ++ q.take k) + protocolHeadLen >
      (p ++ q.take k).length + (q.drop k ++ rest).length := by
    have hrest : (q.drop k ++ rest).length = (q.drop k).length + rest.length := List.length_append
    omega
  rw [if_neg hdone, hpl,
    show (p ++ q).length - (p ++ q.take k).length = (q.drop k).length by omega, List.take_left,
    List.drop_left, keep_eq hlen.1, hsplit]

/-- One chunk, on top of the bytes `p` held of the current frame. -/
theorem feedLoop_frames (deliver : H → Bytes → H) (fuel : ℕ) (h : H) {p c t : Bytes}
    {gs : List Bytes} (hp : p.length ≤ reassemblySpace) (hpp : Partial p)
    (hgs : ∀ g ∈ gs, IsFrame g) (ht : Partial t) (heq : p ++ c = gs.flatten ++ t)
    (hfuel : gs.length < fuel) :
    feedLoop deliver fuel h p c =
      some (gs.foldl (fun h g => deliver h (g.take reassemblySpace)) h, t.take reassemblySpace) := by
  induction gs generalizing fuel h p c with
  | nil =>
    obtain ⟨fuel, rfl⟩ : ∃ n, fuel = n + 1 := ⟨fuel - 1, by simp at hfuel; omega⟩
    simp only [List.flatten_nil, List.nil_append] at heq
    subst heq
    by_cases hc : c = []
    · subst hc
      simp [feedLoop, List.take_of_length_le hp]
    · exact feedLoop_unfinished deliver fuel h hp hc ht
  | cons g gs ih =>
    obtain ⟨fuel, rfl⟩ : ∃ n, fuel = n + 1 := ⟨fuel - 1, by omega⟩
    have hg := hgs g List.mem_cons_self
    rw [List.flatten_cons, List.append_assoc] at heq
    have hlt := hpp.length_lt hg heq
    -- The frame is what is held of it and the beginning of the chunk.
    obtain ⟨q, rfl⟩ : p <+: g :=
      List.prefix_of_prefix_length_le ⟨c, heq⟩ ⟨gs.flatten ++ t, rfl⟩ hlt.le
    have hq : q ≠ [] := by
      rintro rfl
      simp at hlt
    rw [List.append_assoc] at heq
    obtain rfl := List.append_cancel_left heq
    rw [feedLoop_frame deliver fuel h _ hp hq hg]
    exact ih fuel _ (Nat.zero_le _) nil_isPartial (fun x hx => hgs x (List.mem_cons_of_mem _ hx)) rfl
      (by simpa using hfuel)

/-- Any beginning of a stream of frames is its completed frames and a part of the next one. -/
theorem take_stream {fs : List Bytes} {tail : Bytes} (hfs : ∀ f ∈ fs, IsFrame f)
    (htail : Partial tail) (n : ℕ) (hn : n ≤ (fs.flatten ++ tail).length) :
    ∃ t, (fs.flatten ++ tail).take n = (completed fs n).flatten ++ t ∧
      t.length = openBytes fs n ∧ Partial t := by
  induction fs generalizing n with
  | nil =>
    refine ⟨tail.take n, by simp [completed], ?_, ?_⟩
    · simpa [openBytes] using hn
    · exact Partial.of_append (u := tail.drop n) (by rwa [List.take_append_drop])
  | cons f fs ih =>
    rw [List.flatten_cons, List.append_assoc] at hn ⊢
    by_cases hlt : n < f.length
    · refine ⟨f.take n, ?_, ?_, f.drop n, ?_, ?_⟩
      · rw [List.take_append_of_le_length hlt.le]
        simp [completed, hlt]
      · simp [openBytes, hlt, hlt.le]
      · simpa [List.drop_eq_nil_iff] using hlt
      · rw [List.take_append_drop]
        exact hfs f List.mem_cons_self
    · rw [List.length_append] at hn
      obtain ⟨t, h1, h2, h3⟩ := ih (fun g hg => hfs g (List.mem_cons_of_mem _ hg)) (n - f.length)
        (by omega)
      refine ⟨t, ?_, ?_, h3⟩
      · rw [List.take_append, List.take_of_length_le (by omega), h1]
        simp [completed, hlt]
      · simpa [openBytes, hlt] using h2

theorem completed_isPrefix (fs : List Bytes) {m n : ℕ} (hmn : m ≤ n) :
    completed fs m <+: completed fs n := by
  induction fs generalizing m n with
  | nil => exact List.prefix_rfl
  | cons f fs ih =>
    by_cases hm : m < f.length
    · simp [completed, hm]
    · have hn : ¬n < f.length := by omega
      simp only [completed, hm, hn, if_false, List.cons_prefix_cons, true_and]
      exact ih (by omega)

theorem completed_subset (fs : List Bytes) (n : ℕ) : completed fs n ⊆ fs := by
  induction fs generalizing n with
  | nil => exact List.Subset.refl _
  | cons f fs ih =>
    unfold completed
    split_ifs
    · exact List.nil_subset _
    · exact List.cons_subset_cons f (ih _)

theorem completed_full (fs : List Bytes) (tail : Bytes) :
    completed fs (fs.flatten ++ tail).length = fs := by
  induction fs with
  | nil => rfl
  | cons f fs ih =>
    rw [List.flatten_cons, List.append_assoc, List.length_append, completed, if_neg (by omega),
      Nat.add_sub_cancel_left, ih]

theorem length_le_flatten {gs : List Bytes} (h : ∀ g ∈ gs, IsFrame g) :
    gs.length ≤ gs.flatten.length := by
  induction gs with
  | nil => exact Nat.zero_le _
  | cons g gs ih =>
    have := (h g List.mem_cons_self).length_pos
    have := ih (fun x hx => h x (List.mem_cons_of_mem _ hx))
    rw [List.flatten_cons, List.length_append, List.length_cons]
    omega

def chunkBytes (bufs : List FlexBuffer) : Bytes := (bufs.map FlexBuffer.payload).flatten

theorem notifyDataChunks_concat (sink : PacketSink H) (h : H) (inc buf : FlexBuffer)
    (bufs : List FlexBuffer) :
    notifyDataChunks sink h inc (bufs ++ [buf]) =
      (notifyDataChunks sink h inc bufs).bind
        (fun r => multiplexHandlerNotifyData sink r.1 r.2 buf) := by
  rw [notifyDataChunks, List.foldlM_append]
  congr 1
  funext r
  simp only [List.foldlM_cons, List.foldlM_nil, bind_pure]

/-- A chunk that arrives while all bytes of the current frame are held. -/
theorem multiplexHandlerNotifyData_frames (sink : PacketSink H) (h : H) {inc buf : FlexBuffer}
    (hi : Incomplete inc) (hb : buf.WF) {t : Bytes} {gs : List Bytes} (hp : Partial inc.payload)
    (hgs : ∀ g ∈ gs, IsFrame g) (ht : Partial t) (heq : inc.payload ++ buf.payload = gs.flatten ++ t) :
    ∃ inc', Incomplete inc' ∧ inc'.payload = t.take reassemblySpace ∧
      multiplexHandlerNotifyData sink h inc buf =
        some (gs.foldl (fun h g => sink.deliver h (g.take reassemblySpace)) h, inc') := by
  have hfuel : gs.length < buf.size + 2 := by
    rw [← hb.length_payload]
    cases gs with
    | nil => simp
    | cons g gs =>
      rw [List.flatten_cons, List.append_assoc] at heq
      have hlt := hp.length_lt (hgs g List.mem_cons_self) heq
      have hlen := congrArg List.length heq
      have := length_le_flatten (fun x hx => hgs x (List.mem_cons_of_mem g hx))
      simp only [List.length_append, List.length_cons] at hlen ⊢
      omega
  have hfeed := feedLoop_frames sink.deliver (buf.size + 2) h hi.length_le hp hgs ht heq hfuel
  obtain ⟨inc', h1, h2, h3⟩ := notifyDataLoop_refines sink (buf.size + 2) h hi hb hfeed
  exact ⟨inc', h1, h2, h3⟩

/-- Chunk by chunk: as long as every chunk ends where the bytes of the open frame still fit,
the loop delivers the completed frames and holds the open one. -/
theorem notifyDataChunks_frames (sink : PacketSink H) (h : H) {inc : FlexBuffer}
    (hi : Incomplete inc) (hempty : inc.payload = []) {fs : List Bytes} {tail : Bytes}
    (hfs : ∀ f ∈ fs, IsFrame f) (htail : Partial tail) {bufs : List FlexBuffer}
    (hwf : ∀ b ∈ bufs, b.WF) (hstream : chunkBytes bufs <+: fs.flatten ++ tail)
    (hopen : ∀ bs, bs <+: bufs → bs ≠ bufs →
      openBytes fs (chunkBytes bs).length ≤ reassemblySpace) :
    ∃ inc' t, Incomplete inc' ∧ inc'.payload = t.take reassemblySpace ∧
      chunkBytes bufs = (completed fs (chunkBytes bufs).length).flatten ++ t ∧
      t.length = openBytes fs (chunkBytes bufs).length ∧
      notifyDataChunks sink h inc bufs =
        some ((completed fs (chunkBytes bufs).length).foldl
          (fun h g => sink.deliver h (g.take reassemblySpace)) h, inc') := by
  -- Induction on the chunks received so far, the newest last.
  induction bufs using List.reverseRecOn with
  | nil =>
    refine ⟨inc, [], hi, by simp [hempty], ?_, ?_, ?_⟩
    all_goals
      cases fs with
      | nil => simp [chunkBytes, completed, openBytes, notifyDataChunks]
      | cons f fs =>
        have := (hfs f List.mem_cons_self).length_pos
        simp [chunkBytes, completed, openBytes, notifyDataChunks, this]
  | append_singleton bufs buf ih =>
    have hcat : chunkBytes (bufs ++ [buf]) = chunkBytes bufs ++ buf.payload := by
      simp [chunkBytes]
    have hpre : chunkBytes bufs <+: fs.flatten ++ tail := by
      rw [hcat] at hstream
      exact (List.prefix_append _ _).trans hstream
    obtain ⟨inc1, t1, hi1, hp1, hs1, ht1, hrun⟩ := ih
      (fun b hb => hwf b (List.mem_append_left _ hb)) hpre
      (fun bs hbs hne => hopen bs (hbs.trans (List.prefix_append _ _)) (by
        rintro rfl
        have := hbs.length_le
        simp at this))
    have hfit : t1.length ≤ reassemblySpace := by
      rw [ht1]
      exact hopen bufs (List.prefix_append _ _) (by simp)
    rw [List.take_of_length_le hfit] at hp1
    obtain ⟨t0, hs0, hlen0, hpart0⟩ := take_stream hfs htail _ hpre.length_le
    rw [← List.prefix_iff_eq_take.mp hpre] at hs0
    have ht01 : t1 = t0 := List.append_cancel_left (hs1.symm.trans hs0)
    obtain ⟨t, hs, hlen, hpart⟩ := take_stream hfs htail _ hstream.length_le
    rw [← List.prefix_iff_eq_take.mp hstream] at hs
    obtain ⟨gs, hgs⟩ := completed_isPrefix fs
      (show (chunkBytes bufs).length ≤ (chunkBytes (bufs ++ [buf])).length by
        rw [hcat, List.length_append]; omega)
    have heq : inc1.payload ++ buf.payload = gs.flatten ++ t := by
      have h1 := hcat.symm.trans hs
      rw [← hgs, List.flatten_append, List.append_assoc] at h1
      have h2 : (completed fs (chunkBytes bufs).length).flatten ++ (t1 ++ buf.payload) =
          (completed fs (chunkBytes bufs).length).flatten ++ (gs.flatten ++ t) := by
        rw [← h1, ← List.append_assoc, ← hs1]
      rw [hp1]
      exact List.append_cancel_left h2
    obtain ⟨inc', hi', hp', hstep⟩ := multiplexHandlerNotifyData_frames sink
      ((completed fs (chunkBytes bufs).length).foldl
        (fun h g => sink.deliver h (g.take reassemblySpace)) h)
      hi1 (hwf buf (by simp)) (by rw [hp1, ht01]; exact hpart0)
      (fun g hg => hfs g (completed_subset fs _ (by
        rw [← hgs]
        exact List.mem_append_right _ hg))) hpart heq
    refine ⟨inc', t, hi', hp', hs, hlen, ?_⟩
    rw [notifyDataChunks_concat, hrun, Option.bind_some, hstep, ← List.foldl_append, hgs]

theorem openBytes_fits {fs : List Bytes} {tail : Bytes} (hfs : ∀ f ∈ fs, Fits f)
    (htail : Fits tail) {n : ℕ} (hn : n ≤ (fs.flatten ++ tail).length) :
    openBytes fs n ≤ reassemblySpace := by
  induction fs generalizing n with
  | nil => exact le_trans (by simpa [openBytes] using hn) htail
  | cons f fs ih =>
    rw [List.flatten_cons, List.append_assoc, List.length_append] at hn
    unfold openBytes
    split_ifs with hlt
    · exact le_trans hlt.le (hfs f List.mem_cons_self)
    · exact ih (fun g hg => hfs g (List.mem_cons_of_mem _ hg)) (by omega)

theorem chunkBytes_of_isPrefix {bs bufs : List FlexBuffer} (h : bs <+: bufs) :
    chunkBytes bs <+: chunkBytes bufs := by
  obtain ⟨rest, rfl⟩ := h
  exact ⟨chunkBytes rest, by simp [chunkBytes]⟩

theorem foldl_take_of_fits (deliver : H → Bytes → H) {gs : List Bytes} (h : ∀ g ∈ gs, Fits g)
    (s : H) :
    gs.foldl (fun s g => deliver s (g.take reassemblySpace)) s = gs.foldl deliver s := by
  induction gs generalizing s with
  | nil => rfl
  | cons g gs ih =>
    rw [List.foldl_cons, List.foldl_cons, List.take_of_length_le (h g List.mem_cons_self),
      ih (fun x hx => h x (List.mem_cons_of_mem _ hx))]

/-- Reassembly is the frame parser: whatever the cut into chunks, `notify_packet` gets exactly
the frames, in order, and the unfinished one stays in the buffer. -/
theorem notifyDataChunks_reassembles (sink : PacketSink H) (h : H) {inc : FlexBuffer}
    (hi : Incomplete inc) (hempty : inc.size = 0) {fs : List Bytes} {tail : Bytes}
    (hfs : ∀ f ∈ fs, IsFrame f ∧ Fits f)
    (htail : ∃ q, q ≠ [] ∧ IsFrame (tail ++ q) ∧ Fits (tail ++ q)) {bufs : List FlexBuffer}
    (hwf : ∀ b ∈ bufs, b.WF) (hstream : chunkBytes bufs = fs.flatten ++ tail) :
    ∃ inc', notifyDataChunks sink h inc bufs = some (fs.foldl sink.deliver h, inc') ∧
      Incomplete inc' ∧ inc'.payload = tail := by
  obtain ⟨q, hq, hframe, hfit⟩ := htail
  have hft : Fits tail := le_trans (by simp) hfit
  have hpayload : inc.payload = [] :=
    List.length_eq_zero_iff.mp (by rw [hi.wf.length_payload, hempty])
  obtain ⟨inc', t, hi', hp', hs, -, hrun⟩ := notifyDataChunks_frames sink h hi hpayload
    (fun f hf => (hfs f hf).1) ⟨q, hq, hframe⟩ hwf (by rw [hstream])
    (fun bs hbs _ => openBytes_fits (fun f hf => (hfs f hf).2) hft
      (hstream ▸ (chunkBytes_of_isPrefix hbs).length_le))
  rw [hstream, completed_full] at hs hrun
  obtain rfl := List.append_cancel_left hs
  refine ⟨inc', ?_, hi', ?_⟩
  · rw [hrun, foldl_take_of_fits sink.deliver (fun f hf => (hfs f hf).2)]
  · rw [hp', List.take_of_length_le hft]

/-- A sink that writes down the packets it gets and leaves the buffer alone. -/
def recordSink : PacketSink (List Bytes) where
  deliver log p := log ++ [p]
  scribble _ b := b
  scribble_capacity _ _ := rfl
  scribble_storage _ _ := rfl

/-- The reassembly buffer of `multiplex_handler_create`. -/
def freshIncomplete : FlexBuffer :=
  flexBufferInit (List.replicate flexBufferMaxLen 0) flexBufferMaxLen flexPaddingLen

theorem freshIncomplete_incomplete : Incomplete freshIncomplete :=
  ⟨⟨List.length_replicate, by decide, by decide⟩, rfl, rfl⟩

theorem flexBufferFrom_wf {offset : ℕ} {src : Bytes} (h : src.length + offset < 2 ^ 64) :
    (flexBufferFrom offset src).WF :=
  ⟨by simp [flexBufferFrom, Nat.add_comm], by simp [flexBufferFrom, Nat.add_comm], h⟩

/-- A one-byte packet and the first three bytes of a header, cut inside the first header. -/
theorem notifyDataChunks_reassembles_cut :
    ∃ inc', notifyDataChunks recordSink [] freshIncomplete
        [flexBufferFrom 0 [3, 0, 0], flexBufferFrom 0 [1, 0, 1, 0, 1, 65, 3, 0, 0]] =
          some ([[3, 0, 0, 1, 0, 1, 0, 1, 65]], inc') ∧
      Incomplete inc' ∧ inc'.payload = [3, 0, 0] := by
  have hwf : ∀ b ∈ [flexBufferFrom 0 [3, 0, 0], flexBufferFrom 0 [1, 0, 1, 0, 1, 65, 3, 0, 0]],
      b.WF := by
    intro b hb
    simp only [List.mem_cons, List.not_mem_nil, or_false] at hb
    rcases hb with rfl | rfl <;> exact flexBufferFrom_wf (by decide)
  have hstream : chunkBytes [flexBufferFrom 0 [3, 0, 0],
      flexBufferFrom 0 [1, 0, 1, 0, 1, 65, 3, 0, 0]] =
        [[3, 0, 0, 1, 0, 1, 0, 1, 65]].flatten ++ [3, 0, 0] := by decide
  exact notifyDataChunks_reassembles recordSink [] freshIncomplete_incomplete rfl (by decide)
    ⟨[1, 0, 1, 0, 1, 66], by decide, by decide, by decide⟩ hwf hstream

/-- The sink that `multiplex_handler_notify_packet` is, for some handling of sound packets. -/
def checkedSink (dispatch : H → Bytes → H) (sink : PacketSink H) : PacketSink H :=
  { sink with deliver := checkedDeliver dispatch }

/-- The length check drops what is left of an oversize frame and passes every other one. -/
theorem checkedDeliver_take (dispatch : H → Bytes → H) (h : H) {g : Bytes} (hg : IsFrame g) :
    checkedDeliver dispatch h (g.take reassemblySpace) = if Fits g then dispatch h g else h := by
  have hhead := hg.head_le
  by_cases hfit : Fits g
  · rw [List.take_of_length_le hfit, checkedDeliver, if_neg (by omega), if_neg (fun hne => hne hg),
      if_pos hfit]
  · have hlong : reassemblySpace < g.length := not_le.mp hfit
    have hlen : (g.take reassemblySpace).length = reassemblySpace := by
      rw [List.length_take]
      exact min_eq_left hlong.le
    have hpl := payloadLen_append (p := g.take reassemblySpace) (by rw [hlen]; decide)
      (g.drop reassemblySpace)
    rw [List.take_append_drop] at hpl
    unfold IsFrame at hg
    rw [checkedDeliver, if_neg (by rw [hlen]; decide),
      if_pos (by rw [hlen, ← hpl, ← hg]; exact hlong.ne), if_neg hfit]

theorem foldl_checkedDeliver (dispatch : H → Bytes → H) {gs : List Bytes}
    (hgs : ∀ g ∈ gs, IsFrame g) (h : H) :
    gs.foldl (fun h g => checkedDeliver dispatch h (g.take reassemblySpace)) h =
      (gs.filter (fun g => decide (Fits g))).foldl dispatch h := by
  induction gs generalizing h with
  | nil => rfl
  | cons g gs ih =>
    rw [List.foldl_cons, ih (fun x hx => hgs x (List.mem_cons_of_mem _ hx)),
      checkedDeliver_take dispatch h (hgs g List.mem_cons_self)]
    by_cases hfit : Fits g <;> simp [hfit]

private theorem checkedSink_run (dispatch : H → Bytes → H) (sink : PacketSink H) (h : H)
    {inc : FlexBuffer} (hi : Incomplete inc) (hempty : inc.payload = []) {fs : List Bytes}
    (hfs : ∀ f ∈ fs, IsFrame f) {bs : List FlexBuffer} (hwf : ∀ b ∈ bs, b.WF)
    (hstream : chunkBytes bs <+: fs.flatten)
    (hopen : ∀ ds, ds <+: bs → ds ≠ bs → openBytes fs (chunkBytes ds).length ≤ reassemblySpace) :
    ∃ inc' t, Incomplete inc' ∧ inc'.payload = List.take reassemblySpace t ∧
      t.length = openBytes fs (chunkBytes bs).length ∧
      notifyDataChunks (checkedSink dispatch sink) h inc bs =
        some (((completed fs (chunkBytes bs).length).filter (fun f => decide (Fits f))).foldl
          dispatch h, inc') := by
  obtain ⟨inc', t, hi', hp', -, ht, hr⟩ := notifyDataChunks_frames (checkedSink dispatch sink) h
    hi hempty hfs nil_isPartial hwf (by rwa [List.append_nil]) hopen
  refine ⟨inc', t, hi', hp', ht, ?_⟩
  rw [hr, ← foldl_checkedDeliver dispatch (fun g hg => hfs g (completed_subset fs _ hg))]
  rfl

/-- After `n` bytes of the stream the loop is in step with it: every frame that fits and is
complete was delivered and no other, and the bytes still to be skipped or awaited of the open
frame are counted from where the stream stands. -/
structure InStep (dispatch : H → Bytes → H) (fs : List Bytes) (h : H) (n : ℕ)
    (r : H × FlexBuffer) : Prop where
  delivered : r.1 = ((completed fs n).filter (fun f => decide (Fits f))).foldl dispatch h
  position : r.2.size = openBytes fs n

/-- Oversize frames are skipped exactly when no chunk ends inside one of them beyond the bytes
the buffer can hold. -/
theorem notifyDataChunks_inStep_iff (dispatch : H → Bytes → H) (sink : PacketSink H) (h : H)
    {inc : FlexBuffer} (hi : Incomplete inc) (hempty : inc.size = 0) {fs : List Bytes}
    (hfs : ∀ f ∈ fs, IsFrame f) {bufs : List FlexBuffer} (hwf : ∀ b ∈ bufs, b.WF)
    (hstream : chunkBytes bufs = fs.flatten) :
    (∀ bs, bs <+: bufs → ∃ r, notifyDataChunks (checkedSink dispatch sink) h inc bs = some r ∧
      InStep dispatch fs h (chunkBytes bs).length r) ↔
    ∀ bs, bs <+: bufs → openBytes fs (chunkBytes bs).length ≤ reassemblySpace := by
  have hpayload : inc.payload = [] :=
    List.length_eq_zero_iff.mp (by rw [hi.wf.length_payload, hempty])
  constructor
  · intro hall bs hbs
    -- The buffer never holds more than its space, so a position beyond it cannot be right.
    induction hn : bs.length using Nat.strong_induction_on generalizing bs with
    | _ n ih =>
      obtain ⟨r, hr, hstep⟩ := hall bs hbs
      obtain ⟨inc', t, hi', -, -, hr'⟩ := checkedSink_run dispatch sink h hi hpayload hfs
        (fun b hb => hwf b (hbs.subset hb)) (hstream ▸ chunkBytes_of_isPrefix hbs) (fun ds hds hne => by
          have hlt : ds.length < bs.length := lt_of_le_of_ne hds.length_le
            (fun he => hne (hds.eq_of_length he))
          exact ih ds.length (hn ▸ hlt) ds (hds.trans hbs) rfl)
      obtain rfl : r = _ := Option.some.inj (hr.symm.trans hr')
      rw [← hstep.position, ← hi'.wf.length_payload]
      exact hi'.length_le
  · intro hopen bs hbs
    obtain ⟨inc', t, hi', hp', ht, hr⟩ := checkedSink_run dispatch sink h hi hpayload hfs
      (fun b hb => hwf b (hbs.subset hb)) (hstream ▸ chunkBytes_of_isPrefix hbs)
      (fun ds hds _ => hopen ds (hds.trans hbs))
    refine ⟨_, hr, rfl, ?_⟩
    rw [← hi'.wf.length_payload, hp', List.take_of_length_le (ht ▸ hopen bs hbs), ht]

/-- A data packet announcing 2170 bytes of payload, two more than the buffer can take. -/
def oversizeFrame : Bytes := [3, 0, 0, 1, 0, 1, 8, 122] ++ List.replicate 2170 0

def emptyFrame : Bytes := [3, 0, 0, 1, 0, 1, 0, 0]

theorem length_oversizeFrame : oversizeFrame.length = 2178 := by
  rw [oversizeFrame, List.length_append, List.length_replicate]
  rfl

theorem oversizeFrame_isFrame : IsFrame oversizeFrame := by
  rw [IsFrame, length_oversizeFrame, oversizeFrame, payloadLen_append (by decide)]
  decide

/-- In one piece the oversize frame is skipped, and the frame after it delivered. -/
theorem notifyDataChunks_inStep_iff_whole :
    (∀ bs, bs <+: [flexBufferFrom 0 (oversizeFrame ++ emptyFrame)] →
      ∃ r, notifyDataChunks (checkedSink (fun log p => log ++ [p]) recordSink) [] freshIncomplete
          bs = some r ∧
        InStep (fun log p => log ++ [p]) [oversizeFrame, emptyFrame] [] (chunkBytes bs).length r) ↔
    ∀ bs, bs <+: [flexBufferFrom 0 (oversizeFrame ++ emptyFrame)] →
      openBytes [oversizeFrame, emptyFrame] (chunkBytes bs).length ≤ reassemblySpace := by
  refine notifyDataChunks_inStep_iff _ recordSink [] freshIncomplete_incomplete rfl ?_ ?_ ?_
  · intro f hf
    simp only [List.mem_cons, List.not_mem_nil, or_false] at hf
    rcases hf with rfl | rfl
    · exact oversizeFrame_isFrame
    · decide
  · intro b hb
    obtain rfl := List.mem_singleton.mp hb
    refine flexBufferFrom_wf ?_
    rw [List.length_append, length_oversizeFrame]
    decide
  · simp [chunkBytes, FlexBuffer.payload, flexBufferFrom, readAt]

/-- Cut one byte before its end, the oversize frame takes a byte of the next frame with it: that
frame is never delivered. -/
theorem notifyData_loses_frame_after_oversize :
    (notifyDataChunks (checkedSink (fun log p => log ++ [p]) recordSink) [] freshIncomplete
        [flexBufferFrom 0 (oversizeFrame.take 2177),
          flexBufferFrom 0 (oversizeFrame.drop 2177 ++ emptyFrame)]).map Prod.fst = some [] ∧
      ([oversizeFrame, emptyFrame].filter (fun f => decide (Fits f))).foldl
        (fun log p => log ++ [p]) [] = [emptyFrame] := by
  decide +kernel

end Carrier.Session
