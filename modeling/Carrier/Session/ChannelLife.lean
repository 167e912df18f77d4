import Carrier.Session.MuxRun

/-! The life of a channel as its callbacks see it. The events of one id are read by an automaton
whose state is the status of the channel under that id; the life of each channel follows from
the words it accepts. -/
namespace Carrier.Session
open Carrier.Lib Carrier.Common

/-- Where a channel is in its life. -/
inductive LifeStage where
  | gone
  | opening
  | open
  | pending
  deriving DecidableEq

def LifeStage.next : LifeStage → LifeEvent → Option LifeStage
  | .gone, .created => some .opening
  | .gone, .open true => some .opening
  | .gone, .open false => some .gone
  | .opening, .opened => some .open
  | .open, .data => some .open
  | .open, .pending => some .pending
  | .pending, .data => some .pending
  | .pending, .resume => some .open
  | .opening, .close => some .gone
  | .open, .close => some .gone
  | .pending, .close => some .gone
  | _, _ => none

def ChannelStatus.stage : ChannelStatus → LifeStage
  | .opening => .opening
  | .open => .open
  | .pending => .pending
  | .closing => .gone

/-- The stage of the channel under an id, if there is one. -/
def MultiplexHandler.stage (h : MultiplexHandler) (id : ℕ) : LifeStage :=
  match channelsGet h.channels id with
  | none => .gone
  | some ch => ch.status.stage

/-- The events of the channels that have had the id `id`, in order. -/
def eventsOf (id : ℕ) (log : List (ℕ × LifeEvent)) : List LifeEvent :=
  log.filterMap (fun e => if e.1 = id then some e.2 else none)

def LifeEvent.starts : LifeEvent → Bool
  | .created => true
  | .open _ => true
  | _ => false

/-- An event belongs to the channel that came last, unless it starts one. -/
def addEvent : List (List LifeEvent) → LifeEvent → List (List LifeEvent)
  | [], e => [[e]]
  | life :: lives, e => if e.starts then [e] :: life :: lives else (life ++ [e]) :: lives

/-- The lives of the channels that have had one id, the last one first. -/
def lives (events : List LifeEvent) : List (List LifeEvent) := events.foldl addEvent []

/-- Pending and resume alternate, starting with pending; `pend` is whether the channel is pending
now. -/
inductive Mix : List LifeEvent → Bool → Prop where
  | nil : Mix [] false
  | data {events : List LifeEvent} {pend : Bool} (h : Mix events pend) :
      Mix (events ++ [.data]) pend
  | pending {events : List LifeEvent} (h : Mix events false) : Mix (events ++ [.pending]) true
  | resume {events : List LifeEvent} (h : Mix events true) : Mix (events ++ [.resume]) false

/-- The whole life of a channel: refused at once; or started by a local call or an accepted open,
then perhaps opened and used, and closed. -/
inductive Life : List LifeEvent → Prop where
  | refused : Life [.open false]
  | unopened {start : LifeEvent} (h : start = .created ∨ start = .open true) :
      Life [start, .close]
  | used {start : LifeEvent} (h : start = .created ∨ start = .open true) {mix : List LifeEvent}
      {pend : Bool} (hmix : Mix mix pend) : Life (start :: .opened :: mix ++ [.close])

/-- What the life of the last channel looks like at each stage. -/
def LifeStage.Shows : LifeStage → List LifeEvent → Prop
  | .gone, life => Life life
  | .opening, life => ∃ start, (start = .created ∨ start = .open true) ∧ life = [start]
  | .open, life => ∃ start mix, (start = .created ∨ start = .open true) ∧ Mix mix false ∧
      life = start :: .opened :: mix
  | .pending, life => ∃ start mix, (start = .created ∨ start = .open true) ∧ Mix mix true ∧
      life = start :: .opened :: mix

theorem LifeStage.Shows.exists_life {st : LifeStage} {life : List LifeEvent} (h : st.Shows life) :
    ∃ full, Life full ∧ life <+: full := by
  cases st with
  | gone => exact ⟨life, h, List.prefix_rfl⟩
  | opening =>
    obtain ⟨start, hstart, rfl⟩ := h
    exact ⟨_, .unopened hstart, ⟨[.close], rfl⟩⟩
  | «open» =>
    obtain ⟨start, mix, hstart, hmix, rfl⟩ := h
    exact ⟨_, .used hstart hmix, List.prefix_append _ _⟩
  | pending =>
    obtain ⟨start, mix, hstart, hmix, rfl⟩ := h
    exact ⟨_, .used hstart hmix, List.prefix_append _ _⟩

/-- The stage that a list of lives leaves their id in. -/
def LifeStage.Ends (st : LifeStage) : List (List LifeEvent) → Prop
  | [] => st = .gone
  | life :: _ => st.Shows life

/-- The lives read so far are in order. -/
structure Lived (st : LifeStage) (ls : List (List LifeEvent)) : Prop where
  all : ∀ life ∈ ls, ∃ full, Life full ∧ life <+: full
  last : st.Ends ls

theorem Lived.last_cons {st : LifeStage} {ls : List (List LifeEvent)} (h : Lived st ls)
    (hst : st ≠ .gone) : ∃ life rest, ls = life :: rest ∧ st.Shows life := by
  cases ls with
  | nil => exact absurd h.last hst
  | cons life rest => exact ⟨life, rest, rfl, h.last⟩

theorem Lived.start {st : LifeStage} {ls : List (List LifeEvent)} (h : Lived st ls) {e : LifeEvent}
    (he : e.starts = true) {st' : LifeStage} (hshows : st'.Shows [e]) :
    Lived st' (addEvent ls e) := by
  have hadd : addEvent ls e = [e] :: ls := by
    cases ls with
    | nil => rfl
    | cons life rest => rw [addEvent, if_pos he]
  rw [hadd]
  constructor
  · intro life hlife
    rcases List.mem_cons.mp hlife with rfl | hlife
    · exact hshows.exists_life
    · exact h.all life hlife
  · exact hshows

theorem Lived.go {st : LifeStage} {life : List LifeEvent} {rest : List (List LifeEvent)}
    (h : Lived st (life :: rest)) {e : LifeEvent} (he : e.starts = false) {st' : LifeStage}
    (hshows : st'.Shows (life ++ [e])) : Lived st' (addEvent (life :: rest) e) := by
  rw [addEvent, if_neg (by rw [he]; decide)]
  constructor
  · intro l hl
    rcases List.mem_cons.mp hl with rfl | hl
    · exact hshows.exists_life
    · exact h.all l (List.mem_cons_of_mem _ hl)
  · exact hshows

theorem Lived.next {st st' : LifeStage} {ls : List (List LifeEvent)} (h : Lived st ls)
    {e : LifeEvent} (he : st.next e = some st') : Lived st' (addEvent ls e) := by
  cases st with
  | gone =>
    cases e with
    | created =>
      cases he
      exact h.start rfl ⟨_, .inl rfl, rfl⟩
    | «open» accepted =>
      cases accepted with
      | true =>
        cases he
        exact h.start rfl ⟨_, .inr rfl, rfl⟩
      | false =>
        cases he
        exact h.start rfl .refused
    | _ => cases he
  | opening =>
    obtain ⟨life, rest, rfl, start, hstart, rfl⟩ := h.last_cons (by decide)
    cases e with
    | opened =>
      cases he
      exact h.go rfl ⟨start, [], hstart, .nil, rfl⟩
    | close =>
      cases he
      exact h.go rfl (.unopened hstart)
    | «open» accepted => cases accepted <;> cases he
    | _ => cases he
  | «open» =>
    obtain ⟨life, rest, rfl, start, mix, hstart, hmix, rfl⟩ := h.last_cons (by decide)
    cases e with
    | data =>
      cases he
      exact h.go rfl ⟨start, _, hstart, hmix.data, rfl⟩
    | pending =>
      cases he
      exact h.go rfl ⟨start, _, hstart, hmix.pending, rfl⟩
    | close =>
      cases he
      exact h.go rfl (.used hstart hmix)
    | «open» accepted => cases accepted <;> cases he
    | _ => cases he
  | pending =>
    obtain ⟨life, rest, rfl, start, mix, hstart, hmix, rfl⟩ := h.last_cons (by decide)
    cases e with
    | data =>
      cases he
      exact h.go rfl ⟨start, _, hstart, hmix.data, rfl⟩
    | resume =>
      cases he
      exact h.go rfl ⟨start, _, hstart, hmix.resume, rfl⟩
    | close =>
      cases he
      exact h.go rfl (.used hstart hmix)
    | «open» accepted => cases accepted <;> cases he
    | _ => cases he

theorem Lived.of_exec {st st' : LifeStage} {ls : List (List LifeEvent)} (h : Lived st ls)
    {events : List LifeEvent} (hexec : exec LifeStage.next st events = some st') :
    Lived st' (events.foldl addEvent ls) := by
  induction events generalizing st ls with
  | nil =>
    cases hexec
    exact h
  | cons e events ih =>
    obtain ⟨m, hm, hrest⟩ := exec_cons_eq_some.mp hexec
    exact ih (h.next hm) hrest

section Tracks

variable {h m h' : MultiplexHandler} {events events' : List (ℕ × LifeEvent)}

/-- For every id the automaton reads the events from the stage before to the stage after. -/
def Tracks (h : MultiplexHandler) (events : List (ℕ × LifeEvent)) (h' : MultiplexHandler) : Prop :=
  ∀ id, exec LifeStage.next (h.stage id) (eventsOf id events) = some (h'.stage id)

theorem eventsOf_append (id : ℕ) (log log' : List (ℕ × LifeEvent)) :
    eventsOf id (log ++ log') = eventsOf id log ++ eventsOf id log' := List.filterMap_append

theorem eventsOf_map_self (id : ℕ) (es : List LifeEvent) :
    eventsOf id (es.map (fun e => (id, e))) = es := by
  simp [eventsOf, List.filterMap_map]

theorem eventsOf_map_ne {id id' : ℕ} (hne : id' ≠ id) (es : List LifeEvent) :
    eventsOf id (es.map (fun e => (id', e))) = [] := by
  simp [eventsOf, List.filterMap_map, hne]

theorem Tracks.trans (ht : Tracks h events m) (ht' : Tracks m events' h') :
    Tracks h (events ++ events') h' := by
  intro id
  rw [eventsOf_append]
  exact exec_append_eq_some.mpr ⟨m.stage id, ht id, ht' id⟩

/-- It suffices to look at the id whose channel changes. -/
theorem tracks_of_id {id : ℕ} (es : List LifeEvent)
    (hself : exec LifeStage.next (h.stage id) es = some (h'.stage id))
    (hother : ∀ id', id' ≠ id → channelsGet h'.channels id' = channelsGet h.channels id') :
    Tracks h (es.map (fun e => (id, e))) h' := by
  intro id'
  by_cases hid : id' = id
  · rw [hid, eventsOf_map_self]
    exact hself
  · have hsame : h'.stage id' = h.stage id' := by
      rw [MultiplexHandler.stage, MultiplexHandler.stage, hother id' hid]
    rw [eventsOf_map_ne (Ne.symm hid), hsame]
    rfl

theorem stage_of_get {id : ℕ} {ch : Channel} (hget : channelsGet h.channels id = some ch) :
    h.stage id = ch.status.stage := by
  rw [MultiplexHandler.stage, hget]

theorem stage_of_none {id : ℕ} (hget : channelsGet h.channels id = none) : h.stage id = .gone := by
  rw [MultiplexHandler.stage, hget]

theorem exec_turn {st st' : ChannelStatus} {es : List LifeEvent} (hturn : Turn st es st') :
    exec LifeStage.next st.stage es = some st'.stage := by
  cases hturn with
  | stay => rfl
  | opened => rfl
  | data hst => rcases hst with rfl | rfl <;> rfl
  | pending => rfl
  | resume => rfl

theorem exec_close {st : ChannelStatus} (hst : st ≠ .closing) :
    exec LifeStage.next st.stage [.close] = some .gone := by
  cases st with
  | closing => exact absurd rfl hst
  | _ => rfl

theorem channelsGet_enter_ne (h : MultiplexHandler) {ch : Channel} {id : ℕ} (hne : id ≠ ch.id) :
    channelsGet (h.enter ch).channels id = channelsGet h.channels id := by
  rw [MultiplexHandler.enter, MultiplexHandler.put, channelsGet_put, if_neg hne]

theorem Move.tracks (hinv : h.Inv) (hmove : Move h events h') : Tracks h events h' := by
  cases hmove with
  | @enter ch hch start hstart =>
    have hgone := stage_of_none (hinv.fresh_get hch)
    have hstage := stage_of_get (channelsGet_enter h ch)
    rw [hch.status] at hstage
    apply tracks_of_id [start]
    · rw [hgone, hstage]
      rcases hstart with rfl | rfl
      · rfl
      · rfl
    · exact fun id hne => channelsGet_enter_ne h hne
  | @bounce E ch hch _ hev =>
    have hgone := stage_of_none (hinv.fresh_get hch)
    have hgone' := stage_of_none
      ((channelsGet_handler_remove E (h.enter ch) ch.id ch.id).trans (if_pos rfl))
    have hother : ∀ id, id ≠ ch.id →
        channelsGet ((h.enter ch).remove E ch.id).channels id = channelsGet h.channels id := by
      intro id hne
      rw [channelsGet_handler_remove, if_neg hne, channelsGet_enter_ne h hne]
    rcases hev with rfl | rfl
    · exact tracks_of_id [] (by rw [hgone, hgone']; rfl) hother
    · exact tracks_of_id [.open false] (by rw [hgone, hgone']; rfl) hother
  | @change ch ch' es hget hid htype hremote hturn =>
    have hget' : channelsGet (h.set ch').channels ch.id = some ch' := by
      rw [MultiplexHandler.set, channelsGet_set, if_pos hid.symm, hget, Option.map_some]
    apply tracks_of_id es
    · rw [stage_of_get hget, stage_of_get hget']
      exact exec_turn hturn
    · intro id hne
      rw [MultiplexHandler.set, channelsGet_set, if_neg (fun heq => hne (heq.trans hid))]
  | @leave E ch hget =>
    have hgone : channelsGet (h.remove E ch.id).channels ch.id = none :=
      (channelsGet_handler_remove E h ch.id ch.id).trans (if_pos rfl)
    apply tracks_of_id [.close]
    · rw [stage_of_get hget, stage_of_none hgone]
      exact exec_close (hinv.status ch (mem_of_channelsGet hget))
    · exact fun id hne =>
        (channelsGet_handler_remove E h ch.id id).trans (if_neg hne)

theorem Moves.tracks (hinv : h.Inv) (hmoves : Moves h events h') : Tracks h events h' := by
  induction hmoves with
  | refl => exact fun _ => rfl
  | step hmove _ ih => exact (hmove.tracks hinv).trans (ih (hinv.move hmove))

end Tracks

/-- A handler, and what has happened in the lives of its channels. -/
structure LifeRun where
  handler : MultiplexHandler
  log : List (ℕ × LifeEvent)

def LifeRun.init (worker reliable : Bool) : LifeRun := ⟨multiplexHandlerCreate worker reliable, []⟩

def lifeStep (s : LifeRun) (act : MuxAct) : Option LifeRun :=
  (muxCall act.1 s.handler act.2).map (fun r =>
    ⟨r.handler, s.log ++ callLife act.1 s.handler act.2 r⟩)

/-- The log leads every id to the stage of its channel. -/
structure LifeRun.Inv (s : LifeRun) : Prop where
  handler : s.handler.Inv
  log : ∀ id, exec LifeStage.next .gone (eventsOf id s.log) = some (s.handler.stage id)

theorem LifeRun.inv_init (worker reliable : Bool) : (LifeRun.init worker reliable).Inv :=
  ⟨MultiplexHandler.inv_create worker reliable, fun _ => rfl⟩

/-- No write of the call stops the stream while the call still holds a channel. -/
def LifeRun.Keeps (s : LifeRun) (act : MuxAct) : Prop := KeepsStream act.1 s.handler act.2

instance (s : LifeRun) (act : MuxAct) : Decidable (s.Keeps act) :=
  inferInstanceAs (Decidable (KeepsStream ..))

theorem LifeRun.Inv.step {s s' : LifeRun} {act : MuxAct} (h : s.Inv) (hkeeps : s.Keeps act)
    (hstep : lifeStep s act = some s') : s'.Inv := by
  obtain ⟨r, hr, rfl⟩ := Option.map_eq_some_iff.mp hstep
  obtain ⟨told, hmoves, htold⟩ := muxCall_moves h.handler hr
  rw [htold hkeeps] at hmoves
  refine ⟨h.handler.moves hmoves, fun id => ?_⟩
  dsimp only
  rw [eventsOf_append]
  exact exec_append_eq_some.mpr ⟨_, h.log id, hmoves.tracks h.handler id⟩

/-- Whatever is received, called and reported, every channel goes through a life, or the beginning
of one, as long as no call stops the stream while it still holds a channel. -/
theorem lives_run (worker reliable : Bool) (acts : List MuxAct)
    (hkeeps : Along lifeStep LifeRun.Keeps (.init worker reliable) acts) (id : ℕ) :
    ∀ life ∈ lives (eventsOf id (execUntil lifeStep (.init worker reliable) acts).log),
      ∃ full, Life full ∧ life <+: full := by
  have hinv : (execUntil lifeStep (.init worker reliable) acts).Inv :=
    execUntil_invariant_along (fun _ _ _ hI hC hs => hI.step hC hs)
      (LifeRun.inv_init worker reliable) hkeeps
  have hstart : Lived .gone [] := ⟨fun _ hlife => absurd hlife List.not_mem_nil, rfl⟩
  exact (hstart.of_exec (hinv.log id)).all

/-- The pseudo-TCP socket has been closed, so that a write of this type of packet fails and stops the
stream. -/
def stoppedEnv (type : PacketType) : MuxEnv :=
  { linkEnv .modWidth ⟨0, 0⟩ with
    next := fun pb => if pb.type = type.code then -1 else protocolHeadLen
    stop := fun pb => if pb.type = type.code then some 107 else none }

/-- Channel 1 is opened by a local call and confirmed by channel 9 of the peer. -/
def openedByPeer (E : MuxEnv) : List MuxAct :=
  [(E, .openChannel .user none 0), (E, .receive true (ProtocolBuffer.bytes ⟨2, 0, 1, 9, 0, []⟩))]

/-- The channel is used, until a write of data stops the stream. -/
def usedUntilStop : List MuxAct :=
  let E := stoppedEnv .channelData
  openedByPeer E ++
    [(E, .receive true (ProtocolBuffer.bytes ⟨3, 0, 1, 9, 1, [42]⟩)),
      (E, .receive true (ProtocolBuffer.bytes ⟨5, 0, 1, 9, 0, []⟩)),
      (E, .receive true (ProtocolBuffer.bytes ⟨6, 0, 1, 9, 0, []⟩)),
      (E, .writeChannel 1 [43]),
      (E, .closeChannel 1)]

theorem lives_run_usedUntilStop :
    [.created, .opened, .data, .pending, .resume, .close] ∈
        lives (eventsOf 1 (execUntil lifeStep (.init true true) usedUntilStop).log) ∧
      ∃ full, Life full ∧
        [.created, .opened, .data, .pending, .resume, .close] <+: full := by
  have hmem : [.created, .opened, .data, .pending, .resume, .close] ∈
      lives (eventsOf 1 (execUntil lifeStep (.init true true) usedUntilStop).log) := by
    decide +kernel
  exact ⟨hmem, lives_run true true usedUntilStop (by decide +kernel) 1 _ hmem⟩

theorem Mix.exec_next {mix : List LifeEvent} {pend : Bool} (h : Mix mix pend) :
    exec LifeStage.next .open mix = some (if pend then .pending else .open) := by
  induction h with
  | nil => rfl
  | @data _ pend _ ih =>
    refine exec_append_eq_some.mpr ⟨_, ih, ?_⟩
    cases pend <;> rfl
  | pending _ ih => exact exec_append_eq_some.mpr ⟨_, ih, rfl⟩
  | resume _ ih => exact exec_append_eq_some.mpr ⟨_, ih, rfl⟩

theorem Life.exec_next {full : List LifeEvent} (h : Life full) :
    exec LifeStage.next .gone full = some .gone := by
  cases h with
  | refused => rfl
  | unopened hstart => rcases hstart with rfl | rfl <;> rfl
  | @used start hstart mix pend hmix =>
    have hrest : exec LifeStage.next .open (mix ++ [.close]) = some .gone := by
      refine exec_append_eq_some.mpr ⟨_, hmix.exec_next, ?_⟩
      cases pend <;> rfl
    rcases hstart with rfl | rfl
    · exact hrest
    · exact hrest

/-- The write of the `Close` packet stops the stream: the channel is reported as closed from within
it, and again after it. -/
theorem lives_run_fails_stopped :
    [.created, .opened, .close, .close] ∈ lives (eventsOf 1 (execUntil lifeStep (.init false true)
        (openedByPeer (stoppedEnv .channelClose) ++
          [(stoppedEnv .channelClose, .closeChannel 1)])).log) ∧
      ¬∃ full, Life full ∧ [.created, .opened, .close, .close] <+: full := by
  constructor
  · decide +kernel
  · rintro ⟨full, hfull, rest, rfl⟩
    obtain ⟨st, hst, -⟩ := exec_append_eq_some.mp hfull.exec_next
    cases hst

end Carrier.Session
