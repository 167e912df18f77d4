import Carrier.Session.TcpQueue

/-! The formats of the pseudo-TCP: the header of a packet, and the options of a connect message. -/
namespace Carrier.Session
open Carrier.Lib PseudoTcpSocket

section Header

variable {p : Bytes} {pos len : ℕ}

theorem readAt_append_drop (p : Bytes) (pos len : ℕ) :
    readAt p pos len ++ p.drop (pos + len) = p.drop pos := by
  rw [readAt, ← List.drop_drop, List.take_append_drop]

theorem toBE_readAt {w : ℕ} (hw : 256 ^ len = 2 ^ w) (h : pos + len ≤ p.length) :
    toBE len (BitVec.ofNat w (ofBE (readAt p pos len))).toNat = readAt p pos len := by
  have hlength : (readAt p pos len).length = len := length_readAt p h
  have hlt := ofBE_lt (readAt p pos len)
  rw [hlength, hw] at hlt
  rw [BitVec.toNat_ofNat, Nat.mod_eq_of_lt hlt]
  nth_rewrite 1 [← hlength]
  exact toBE_ofBE _

/-- The byte in front of the flags, which no version of the protocol uses, and the flags. -/
theorem readAt_flags (hlen : HEADER_SIZE ≤ p.length) (hzero : p[12]? = some 0) :
    [0, (p[13]?).getD 0] = readAt p 12 2 := by
  unfold HEADER_SIZE at hlen
  have hflags : p[13]? = some p[13] := List.getElem?_eq_getElem (by omega)
  apply List.ext_getElem?
  intro i
  rw [getElem?_readAt]
  match i with
  | 0 => rw [if_pos (by decide), hzero]; rfl
  | 1 => rw [if_pos (by decide), hflags]; rfl
  | i + 2 => rw [if_neg (by omega)]; rfl

theorem encode_decode (hlen : HEADER_SIZE ≤ p.length) (hzero : p[12]? = some 0) :
    (Segment.decode p).encode = p := by
  have hflags := readAt_flags hlen hzero
  unfold HEADER_SIZE at hlen
  have h4 {pos : ℕ} (hpos : pos + 4 ≤ p.length) := toBE_readAt (p := p) (w := 32) (by decide : 256 ^ 4 = 2 ^ 32) hpos
  have h2 {pos : ℕ} (hpos : pos + 2 ≤ p.length) := toBE_readAt (p := p) (w := 16) (by decide : 256 ^ 2 = 2 ^ 16) hpos
  unfold Segment.decode Segment.encode
  dsimp only
  rw [h4 (by omega), h4 (by omega), h4 (by omega), hflags, h2 (by omega), h4 (by omega), h4 (by omega)]
  simp only [List.append_assoc]
  calc _ = readAt p 0 4 ++ (readAt p 4 4 ++ (readAt p 8 4 ++ (readAt p 12 2 ++ (readAt p 14 2 ++
          (readAt p 16 4 ++ (readAt p 20 4 ++ p.drop (20 + 4))))))) := rfl
    _ = p := by simp only [readAt_append_drop p 20 4, readAt_append_drop p 16 4, readAt_append_drop p 14 2,
          readAt_append_drop p 12 2, readAt_append_drop p 8 4, readAt_append_drop p 4 4,
          readAt_append_drop p 0 4, List.drop_zero]

/-- A segment survives its packet, and the packets of segments are those that have a whole header with
nothing in its unused byte. -/
theorem packet_format : (∀ g : Segment, .decode g.encode = g) ∧
    ∀ p, (Segment.decode p).encode = p ↔ HEADER_SIZE ≤ p.length ∧ p[12]? = some 0 := by
  refine ⟨decode_encode, fun p => ⟨fun heq => ?_, fun h => encode_decode h.1 h.2⟩⟩
  rw [← heq]
  constructor
  · rw [length_encode]
    exact Nat.le_add_right _ _
  · generalize Segment.decode p = g
    have hnumbers : (toBE 4 g.conv.toNat ++ toBE 4 g.seq.toNat ++ toBE 4 g.ack.toNat).length = 12 := by
      simp only [List.length_append, length_toBE]
    have hbehind : g.encode = (toBE 4 g.conv.toNat ++ toBE 4 g.seq.toNat ++ toBE 4 g.ack.toNat) ++
        0 :: g.flags :: (toBE 2 g.wnd.toNat ++ toBE 4 g.tsval.toNat ++ toBE 4 g.tsecr.toNat ++ g.data) := by
      simp only [Segment.encode, List.append_assoc, List.cons_append, List.nil_append]
    rw [hbehind, List.getElem?_append_right hnumbers.le, hnumbers]
    rfl

end Header

section Options

/-- An option of a connect message: padding, or a kind with its data. -/
inductive TcpOption where
  | noop
  | valued (kind : UInt8) (data : Bytes)

namespace TcpOption

def encode : TcpOption → Bytes
  | .noop => [TCP_OPT_NOOP]
  | .valued kind data => [kind, UInt8.ofNat data.length] ++ data

/-- A kind that is not taken for padding or the end, and data whose length fits into its byte. -/
def Fits : TcpOption → Prop
  | .noop => True
  | .valued kind data => kind ≠ TCP_OPT_EOL ∧ kind ≠ TCP_OPT_NOOP ∧ data.length < 256

def apply (s : PseudoTcpSocket) : TcpOption → PseudoTcpSocket
  | .noop => s
  | .valued kind data => s.applyOption kind data

def isKind (kind : UInt8) : TcpOption → Bool
  | .noop => false
  | .valued k _ => k = kind

end TcpOption

variable {s : PseudoTcpSocket} {data : Bytes} {fuel pos : ℕ} {windowScaling finAck : Bool}

/-- The same socket, but for what the options are about. -/
def Agreed (s s' : PseudoTcpSocket) : Prop :=
  s' = { s with outgoing.swndScale := s'.outgoing.swndScale, supportFinAck := s'.supportFinAck }

theorem Agreed.refl (s : PseudoTcpSocket) : Agreed s s := rfl

theorem Agreed.trans {s' s'' : PseudoTcpSocket} (h : Agreed s s') (h' : Agreed s' s'') : Agreed s s'' := by
  unfold Agreed at *
  rw [h', h]

theorem Agreed.incoming {s' : PseudoTcpSocket} (h : Agreed s s') : s'.incoming = s.incoming := by
  rw [h]

theorem applyOption_agreed (s : PseudoTcpSocket) (kind : UInt8) (data : Bytes) :
    Agreed s (s.applyOption kind data) := by
  unfold applyOption
  split
  · split
    · rfl
    · rfl
  · split
    · rfl
    · rfl

theorem optionsLoop_inBounds (hfuel : data.length - pos < fuel) :
    Yields (fun r => Agreed s r.1) (optionsLoop data fuel s pos windowScaling finAck) := by
  induction fuel generalizing s pos windowScaling finAck with
  | zero => exact absurd hfuel (Nat.not_lt_zero _)
  | succ fuel ih =>
    rw [optionsLoop]
    by_cases hend : data.length ≤ pos
    · rw [if_pos hend]
      exact yields_some (.refl s)
    · rw [if_neg hend, List.getElem?_eq_getElem (not_le.mp hend), Option.bind_eq_bind, Option.bind_some]
      dsimp only
      split_ifs with heol hnoop hcut
      · exact yields_some (.refl s)
      · exact ih (by omega)
      · exact yields_some (.refl s)
      · rw [List.getElem?_eq_getElem (not_lt.mp hcut), Option.bind_some]
        split_ifs with hshort
        · exact yields_some (.refl s)
        · exact (ih (by omega)).imp (fun r hr => (applyOption_agreed s _ _).trans hr)

/-- Whatever bytes a peer sends as its options: they are read within their bounds, and change nothing but
the scale of the send window and the support for FIN-ACK. -/
theorem parseOptions_inBounds (hscale : s.incoming.rwndScale = 0) (data : Bytes) :
    Yields (Agreed s) (s.parseOptions data) := by
  unfold parseOptions
  refine (optionsLoop_inBounds (by omega)).bind ?_
  rintro ⟨s₁, found⟩ hs₁
  cases found with
  | none => exact yields_some hs₁
  | some found =>
    obtain ⟨windowScaling, finAck⟩ := found
    have hunscaled : ¬(¬windowScaling = true ∧ 0 < s₁.incoming.rwndScale) := by
      have hsame : s₁.incoming = s.incoming := hs₁.incoming
      rw [hsame, hscale]
      exact fun hscaled => absurd hscaled.2 (lt_irrefl 0)
    dsimp only
    rw [if_neg hunscaled]
    refine yields_some ?_
    split_ifs with hfin
    · exact hs₁
    · exact hs₁.trans rfl

theorem parseOptions_inBounds_new : Yields (Agreed (.new 1)) ((PseudoTcpSocket.new 1).parseOptions [3, 9, 1]) :=
  parseOptions_inBounds rfl [3, 9, 1]

theorem drop_eq_cons {b : UInt8} {rest : Bytes} (h : data.drop pos = b :: rest) :
    pos < data.length ∧ data[pos]? = some b ∧ data.drop (pos + 1) = rest := by
  have hlt : pos < data.length := by
    by_contra hle
    rw [List.drop_eq_nil_of_le (not_lt.mp hle)] at h
    exact nomatch h
  rw [List.drop_eq_getElem_cons hlt] at h
  obtain ⟨hb, hrest⟩ := List.cons.inj h
  exact ⟨hlt, by rw [List.getElem?_eq_getElem hlt, hb], hrest⟩

/-- One round reads one option. -/
theorem optionsLoop_option {o : TcpOption} {rest : Bytes} (ho : o.Fits) (hdrop : data.drop pos = o.encode ++ rest) :
    optionsLoop data (fuel + 1) s pos windowScaling finAck =
      optionsLoop data fuel (o.apply s) (pos + o.encode.length)
        (windowScaling || o.isKind TCP_OPT_WND_SCALE) (finAck || o.isKind TCP_OPT_FIN_ACK) := by
  rw [optionsLoop]
  cases o with
  | noop =>
    obtain ⟨hpos, hkind, -⟩ := drop_eq_cons hdrop
    rw [if_neg (not_le.mpr hpos), hkind, Option.bind_eq_bind, Option.bind_some,
      if_neg (by decide), if_pos rfl, TcpOption.isKind, Bool.or_false, TcpOption.isKind, Bool.or_false]
    rfl
  | valued kind value =>
    obtain ⟨heol, hnoop, hlen⟩ := ho
    change data.drop pos = kind :: UInt8.ofNat value.length :: (value ++ rest) at hdrop
    obtain ⟨hpos, hkind, hdrop'⟩ := drop_eq_cons hdrop
    obtain ⟨hpos', hlength, hdrop''⟩ := drop_eq_cons hdrop'
    have hvalue : (UInt8.ofNat value.length).toNat = value.length := by
      rw [UInt8.toNat_ofNat', Nat.mod_eq_of_lt hlen]
    have hread : readAt data (pos + 1 + 1) value.length = value := by
      rw [readAt, hdrop'', List.take_left]
    have hroom : ¬data.length < pos + 1 + 1 + value.length := by
      have htotal := congrArg List.length hdrop''
      rw [List.length_drop, List.length_append] at htotal
      omega
    rw [if_neg (not_le.mpr hpos), hkind, Option.bind_eq_bind, Option.bind_some, if_neg heol, if_neg hnoop]
    dsimp only
    rw [if_neg (by omega), hlength, Option.bind_some, hvalue, if_neg hroom, hread]
    have hsize : (TcpOption.valued kind value).encode.length = 2 + value.length := by
      rw [TcpOption.encode, List.length_append]
      rfl
    rw [hsize, ← Nat.add_assoc]
    rfl

/-- The loop reads the options one after the other. -/
theorem optionsLoop_encode {opts : List TcpOption} (hfits : ∀ o ∈ opts, o.Fits) (hfuel : opts.length < fuel)
    (hdrop : data.drop pos = opts.flatMap TcpOption.encode) :
    optionsLoop data fuel s pos windowScaling finAck = some (opts.foldl TcpOption.apply s,
      some (windowScaling || opts.any (TcpOption.isKind TCP_OPT_WND_SCALE),
        finAck || opts.any (TcpOption.isKind TCP_OPT_FIN_ACK))) := by
  induction opts generalizing fuel s pos windowScaling finAck with
  | nil =>
    obtain ⟨fuel, rfl⟩ := Nat.exists_eq_add_one.mpr hfuel
    have hend : data.length ≤ pos := List.drop_eq_nil_iff.mp hdrop
    rw [optionsLoop, if_pos hend, List.any_nil, List.any_nil, Bool.or_false, Bool.or_false]
    rfl
  | cons o opts ih =>
    obtain ⟨fuel, rfl⟩ := Nat.exists_eq_add_one.mpr (Nat.zero_lt_of_lt hfuel)
    rw [List.flatMap_cons] at hdrop
    have hrest : data.drop (pos + o.encode.length) = opts.flatMap TcpOption.encode := by
      rw [← List.drop_drop, hdrop, List.drop_left]
    rw [optionsLoop_option (hfits o List.mem_cons_self) hdrop,
      ih (fun o ho => hfits o (List.mem_cons_of_mem _ ho)) (Nat.lt_of_succ_lt_succ hfuel) hrest]
    simp only [List.foldl_cons, List.any_cons, Bool.or_assoc]

theorem foldl_agreed (s : PseudoTcpSocket) (opts : List TcpOption) : Agreed s (opts.foldl TcpOption.apply s) := by
  induction opts generalizing s with
  | nil => exact .refl s
  | cons o opts ih =>
    cases o with
    | noop => exact ih s
    | valued kind value => exact (applyOption_agreed s kind value).trans (ih _)

/-- The options of a connect message are read as they have been put, in their order; without one for
FIN-ACK its support ends. -/
theorem parseOptions_encode (hscale : s.incoming.rwndScale = 0) {opts : List TcpOption}
    (hfits : ∀ o ∈ opts, o.Fits) :
    s.parseOptions (opts.flatMap TcpOption.encode) =
      some (if opts.any (TcpOption.isKind TCP_OPT_FIN_ACK) then opts.foldl TcpOption.apply s
        else { opts.foldl TcpOption.apply s with supportFinAck := false }) := by
  have hsize : opts.length ≤ (opts.flatMap TcpOption.encode).length := by
    have hcount : (opts.map (fun o => o.encode.length)).length = opts.length := List.length_map _
    rw [List.length_flatMap, ← hcount]
    refine List.length_le_sum_of_one_le _ (fun n hn => ?_)
    obtain ⟨o, -, rfl⟩ := List.mem_map.mp hn
    cases o with
    | noop => exact le_rfl
    | valued kind value =>
      rw [TcpOption.encode, List.length_append]
      exact Nat.le_add_right_of_le (Nat.le_add_left 1 1)
  have hsame := (foldl_agreed s opts).incoming
  unfold parseOptions
  rw [optionsLoop_encode hfits (by omega) List.drop_zero, Option.bind_eq_bind, Option.bind_some]
  generalize opts.foldl TcpOption.apply s = s' at hsame ⊢
  have hunscaled : ¬(¬(false || opts.any (TcpOption.isKind TCP_OPT_WND_SCALE)) = true ∧
      0 < s'.incoming.rwndScale) := by
    rw [hsame, hscale]
    exact fun hscaled => absurd hscaled.2 (lt_irrefl 0)
  dsimp only
  rw [if_neg hunscaled, Bool.false_or]
  rfl

/-- The options of the connect message, with padding between them. -/
theorem parseOptions_encode_connect :
    (PseudoTcpSocket.new 1).parseOptions [3, 1, 5, 1, 254, 1, 0] =
      some { PseudoTcpSocket.new 1 with outgoing.swndScale := 5 } := by
  have hfits : ∀ o ∈ [TcpOption.valued 3 [5], .noop, .valued 254 [0]], o.Fits := by
    intro o ho
    simp only [List.mem_cons, List.not_mem_nil, or_false] at ho
    obtain rfl | rfl | rfl := ho
    · exact ⟨by decide, by decide, by decide⟩
    · trivial
    · exact ⟨by decide, by decide, by decide⟩
  exact parseOptions_encode rfl hfits

end Options

end Carrier.Session
