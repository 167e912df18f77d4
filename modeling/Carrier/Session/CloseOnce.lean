import Carrier.Session.Reentry

/-! Runs in which callbacks close channels: when each call returns and each channel is reported as
closed at most once. -/
namespace Carrier.Session
open Carrier.Lib Carrier.Common Reentry

/-- A watched call ends so, unless it was careless. -/
abbrev Returns (P : Reentry → Prop) (x : Except Stop Reentry) : Prop := Ends (· = .careless) P x

section Closing

variable {app : Application} {E : MuxEnv} {close : Reentry → ℕ → Except Stop Reentry} {n : ℕ}
  {s : Reentry}

/-- A close returns with less than `n` channels whose close is not being reported. -/
def Closes (n : ℕ) (close : Reentry → ℕ → Except Stop Reentry) : Prop :=
  ∀ s cid, s.Inv → s.openIds.length < n → s.careless cid = false →
    Returns (fun t => t.Inv ∧ Within s t) (close s cid)

theorem closeAll_returns (hclose : Closes n close) (cids : List ℕ) (hinv : s.Inv)
    (hn : s.openIds.length < n) :
    Returns (fun t => t.Inv ∧ Within s t) (closeAll true close cids s) := by
  induction cids generalizing s with
  | nil => exact ⟨hinv, .refl s⟩
  | cons cid cids ih =>
    unfold closeAll
    cases hcare : s.careless cid with
    | true => exact rfl
    | false =>
      apply (hclose s cid hinv hn hcare).bind
      rintro t ⟨htinv, hwithin⟩
      apply (ih htinv (hwithin.openIds_le.trans_lt hn)).imp
      rintro u ⟨huinv, hwithin'⟩
      exact ⟨huinv, hwithin.trans hwithin'⟩

theorem notify_returns (app : Application) (hclose : Closes n close) (cb : Callback) (hinv : s.Inv)
    (hn : s.openIds.length < n) :
    Returns (fun t => t.Inv ∧ Within s t) (notify app true close s cb) := by
  apply (closeAll_returns hclose _ (hinv.emit [cb.event]) hn).imp
  rintro t ⟨htinv, hwithin⟩
  exact ⟨htinv, (Within.emit s _).trans hwithin⟩

/-- The state in which a channel's close is reported. -/
def reportState (s : Reentry) (id : ℕ) : Reentry :=
  { s with reporting := id :: s.reporting, reports := s.reports ++ [(id, s.incarnation id)] }

theorem inv_reportState {id : ℕ} (hinv : s.Inv) (hid : id ∈ s.ids) (hnot : id ∉ s.reporting) :
    (reportState s id).Inv := by
  refine hinv.report (t := reportState s id) hid hnot hinv.handler rfl rfl ?_
  intro x hx hrep
  rw [reportState, List.mem_cons, not_or] at hrep
  exact ⟨hx, hrep.2, hrep.1⟩

theorem length_openIds_reportState {id : ℕ} (hid : id ∈ s.ids) (hnot : id ∉ s.reporting) :
    (reportState s id).openIds.length < s.openIds.length := by
  have hmem : id ∈ s.openIds := List.mem_filter.mpr ⟨hid, by simpa using hnot⟩
  have heq : (reportState s id).openIds = s.openIds.filter (· ≠ id) := by
    unfold openIds
    rw [List.filter_filter]
    apply List.filter_congr
    intro x _
    simp [reportState, List.mem_cons]
  rw [heq]
  apply List.length_filter_lt_length_iff_exists.mpr
  exact ⟨id, hmem, by simp⟩

theorem notifyThenRemove_returns (hclose : Closes n close) (id : ℕ) (reason : CloseReason)
    (hinv : s.Inv) (hid : id ∈ s.ids) (hnot : id ∉ s.reporting) (hscan : s.scanning = false)
    (hn : s.openIds.length < n + 1) :
    Returns (fun t => t.Inv ∧ Within s t) (notifyThenRemove app true E close s id reason) := by
  have hlt := length_openIds_reportState hid hnot
  have hreport := notify_returns app hclose (.close id reason)
    (inv_reportState hinv hid hnot) (by omega)
  apply hreport.map
  rintro t ⟨htinv, hwithin⟩
  have hgone : s.modCount < (t.remove E id).modCount := by
    rw [remove_modCount]
    have hle : s.modCount ≤ t.modCount := hwithin.modCount
    split_ifs with hmem
    · omega
    · apply lt_of_le_of_ne hle
      intro heq
      exact hmem (hwithin.same heq.symm ▸ hid)
  constructor
  · exact htinv.leave (E := E) hwithin.reporting (remove_handler E t id) (remove_reports E t id)
      (remove_incarnation E t id) rfl
  · constructor
    · have hsub : (t.remove E id).ids.Sublist t.ids := ids_remove E t id ▸ List.filter_sublist
      exact hsub.trans hwithin.ids
    · exact (remove_incarnation E t id).trans hwithin.incarnation
    · rfl
    · exact (remove_scanning E t id).trans hwithin.scanning
    · exact hgone.le
    · intro heq
      exact absurd heq hgone.ne'
    · intro htrue
      rw [hscan] at htrue
      cases htrue

/-- Where the caller then reports a channel, the write has only sent its packet. -/
theorem writtenThenReported_returns (app : Application) (close : Reentry → ℕ → Except Stop Reentry)
    (rounds : ℕ) (s : Reentry) (pb : ProtocolBuffer) :
    Returns (fun t => t = s.emit [.send pb]) (writtenThenReported app true E close rounds s pb) := by
  unfold writtenThenReported written
  dsimp only [Reentry.emit]
  cases s.handler.stops E pb with
  | none => exact rfl
  | some reason => exact rfl

/-- Each nested close has one channel less to report, so their depth is bounded. -/
theorem closes_closeChannel (app : Application) (E : MuxEnv) (n : ℕ) :
    Closes n (closeChannel app true E n) := by
  induction n with
  | zero =>
    intro s cid _ hn
    omega
  | succ n ih =>
    intro s cid hinv hn hcare
    unfold closeChannel
    cases hget : channelsGet s.handler.channels cid with
    | none => exact ⟨hinv, .refl s⟩
    | some ch =>
      have hid : cid ∈ s.ids := (get_isSome_iff s cid).mp (hget ▸ rfl)
      have hfree : cid ∉ s.reporting ∧ s.scanning = false := by
        unfold careless at hcare
        simpa [hget] using hcare
      rw [← channelsGet_id hget] at hid hfree
      dsimp only
      split_ifs with hrid
      · exact notifyThenRemove_returns ih ch.id .normal hinv hid hfree.1 hfree.2 hn
      · apply (writtenThenReported_returns app (closeChannel app true E n) n s (closeNotice ch)).bind
        rintro _ rfl
        set sent : List MuxEvent := [.send (closeNotice ch)]
        apply (notifyThenRemove_returns ih ch.id .normal (hinv.emit sent) hid hfree.1 hfree.2 hn).imp
        rintro t ⟨htinv, hwithin⟩
        exact ⟨htinv, (Within.emit s sent).trans hwithin⟩

end Closing

section Loops

variable {app : Application} {E : MuxEnv} {fuel : ℕ} {s : Reentry}

/-- A handler between two calls. -/
structure Idle (s : Reentry) : Prop where
  inv : s.Inv
  reporting : s.reporting = []
  scanning : s.scanning = false

theorem length_openIds_le (s : Reentry) : s.openIds.length ≤ s.ids.length :=
  List.length_filter_le _ _

theorem Idle.within {t : Reentry} (h : Idle s) (hinv : t.Inv) (hwithin : Within s t) : Idle t :=
  ⟨hinv, hwithin.reporting.trans h.reporting, hwithin.scanning.trans h.scanning⟩

theorem checkpointChannel_ids {ch : Channel} (h : MultiplexHandler) (htime : timedOut E ch = false) :
    (checkpointChannel E h ch).1.channels.map Channel.id = h.channels.map Channel.id := by
  unfold timedOut at htime
  rw [decide_eq_false_iff_not] at htime
  unfold checkpointChannel
  rw [if_neg htime]
  dsimp only
  split_ifs
  · exact map_id_channelsSet _ _
  · rfl
  · rfl

/-- In the report of a checkpoint nothing is closed, so the reported channel can be removed. -/
theorem timeoutReport_returns (app : Application) {id : ℕ} (hidle : Idle s) (hid : id ∈ s.ids)
    (hfuel : s.ids.length < fuel) :
    Returns (fun t => t.modCount = s.modCount ∧
        Idle ({ t with reporting := s.reporting, scanning := false }.remove E id) ∧
        ({ t with reporting := s.reporting, scanning := false }.remove E id).ids.length ≤ s.ids.length)
      (notifyClose app true (closeChannel app true E fuel)
        { s with reporting := id :: s.reporting, scanning := true } id .timeout) := by
  have hnot : id ∉ s.reporting := hidle.reporting ▸ List.not_mem_nil
  set s1 : Reentry := { reportState s id with scanning := true }
  have hinv1 : s1.Inv := by
    refine (inv_reportState hidle.inv hid hnot).congr (t := s1) hidle.inv.handler rfl rfl ?_
    exact fun _ hx hrep => ⟨hx, hrep⟩
  have hlen1 : s1.openIds.length < fuel := (length_openIds_le s1).trans_lt hfuel
  apply (notify_returns app (closes_closeChannel app E fuel) (.close id .timeout) hinv1 hlen1).imp
  rintro t ⟨htinv, hwithin⟩
  have hmod : t.modCount = s.modCount := hwithin.still rfl
  have hids : t.ids = s.ids := hwithin.same hmod
  set t1 : Reentry := { t with reporting := s.reporting, scanning := false }
  refine ⟨hmod, ⟨?_, ?_, ?_⟩, ?_⟩
  · exact htinv.leave (E := E) hwithin.reporting (remove_handler E t1 id) (remove_reports E t1 id)
      (remove_incarnation E t1 id) (remove_reporting E t1 id)
  · exact (remove_reporting E t1 id).trans hidle.reporting
  · exact remove_scanning E t1 id
  · rw [ids_remove, ← hids]
    exact List.length_filter_le _ _

theorem idle_checkpointChannel {ch : Channel} (hidle : Idle s)
    (hget : channelsGet s.handler.channels ch.id = some ch) (htime : timedOut E ch = false) :
    Idle ({ s with handler := (checkpointChannel E s.handler ch).1 }.emit
      (checkpointChannel E s.handler ch).2) := by
  obtain ⟨hmoves, -⟩ := round_checkpoint E true s.handler ch hidle.inv.handler hget
  set t : Reentry := { s with handler := (checkpointChannel E s.handler ch).1 }.emit _
  have hids : t.ids = s.ids := checkpointChannel_ids s.handler htime
  refine ⟨?_, hidle.reporting, hidle.scanning⟩
  refine hidle.inv.congr (t := t) (hidle.inv.handler.moves hmoves) rfl rfl ?_
  exact fun _ hx hrep => ⟨hids ▸ hx, hrep⟩

/-- As no channel is closed in its callbacks, the checkpoint never has to start again. -/
theorem checkpointLoop_returns {rounds : ℕ} {rest : List ℕ} (hidle : Idle s)
    (hfuel : s.ids.length < fuel) (hrounds : rest.length < rounds) :
    Returns (fun t => Idle t ∧ t.ids.length ≤ s.ids.length)
      (checkpointLoop app true E fuel rounds s rest s.modCount) := by
  induction rounds generalizing s rest with
  | zero => omega
  | succ rounds ih =>
    cases rest with
    | nil => exact ⟨hidle, le_refl _⟩
    | cons id rest =>
      rw [List.length_cons] at hrounds
      unfold checkpointLoop
      rw [if_neg (not_not.mpr rfl)]
      cases hget : channelsGet s.handler.channels id with
      | none => exact ih hidle hfuel (by omega)
      | some ch =>
        have hid : id ∈ s.ids := (get_isSome_iff s id).mp (hget ▸ rfl)
        dsimp only
        cases htime : timedOut E ch with
        | true =>
          rw [if_pos rfl]
          apply (timeoutReport_returns app hidle hid hfuel).bind
          rintro t ⟨hmod, htidle, hle⟩
          rw [if_neg (not_not.mpr hmod.symm)]
          apply (ih htidle (hle.trans_lt hfuel) (by omega)).imp
          rintro u ⟨huidle, hule⟩
          exact ⟨huidle, hule.trans hle⟩
        | false =>
          rw [if_neg Bool.false_ne_true]
          rw [← channelsGet_id hget] at hget
          have htidle := idle_checkpointChannel hidle hget htime
          set t : Reentry := { s with handler := (checkpointChannel E s.handler ch).1 }.emit _
          have hids : t.ids = s.ids := checkpointChannel_ids s.handler htime
          rw [← hids] at hfuel ⊢
          exact ih htidle hfuel (by omega)

/-- The state in which the close of a channel is reported that has been removed. -/
theorem idle_removedReport {id : ℕ} (hidle : Idle s) (hid : id ∈ s.ids) :
    Idle { s.remove E id with
      reports := (s.remove E id).reports ++ [(id, (s.remove E id).incarnation id)] } := by
  refine ⟨?_, (remove_reporting E s id).trans hidle.reporting,
    (remove_scanning E s id).trans hidle.scanning⟩
  refine hidle.inv.report hid (hidle.reporting ▸ List.not_mem_nil) ?_ ?_
    (remove_incarnation E s id) ?_
  · exact remove_handler E s id ▸ hidle.inv.handler.remove E id
  · rw [remove_reports, remove_incarnation]
  · intro x hx _
    have hx' : x ∈ (s.remove E id).ids := hx
    rw [ids_remove, List.mem_filter, decide_eq_true_eq] at hx'
    exact ⟨hx'.1, hidle.reporting ▸ List.not_mem_nil, hx'.2⟩

/-- The loop that closes all channels starts again after a callback that closed one; by then the
table has become smaller. In the end it is empty. -/
theorem closeChannelsLoop_returns {rounds expected : ℕ} {rest : List ℕ} (reason : CloseReason)
    (hidle : Idle s) (hfuel : s.ids.length < fuel) (hrest : expected = s.modCount → rest = s.ids)
    (hnil : rest = [] → s.ids = [])
    (hrounds : 2 * s.ids.length + (if expected = s.modCount then 0 else 1) < rounds) :
    Returns (fun t => Idle t ∧ t.ids = [])
      (closeChannelsLoop app true E (closeChannel app true E fuel) reason rounds s rest expected) := by
  induction rounds generalizing s rest expected with
  | zero => omega
  | succ rounds ih =>
    cases rest with
    | nil => exact ⟨hidle, hnil rfl⟩
    | cons id rest =>
      unfold closeChannelsLoop
      by_cases hexp : expected = s.modCount
      · rw [if_neg (not_not.mpr hexp)]
        rw [if_pos hexp] at hrounds
        have hids := hrest hexp
        have hnodup : (id :: rest).Nodup := hids ▸ hidle.inv.handler.nodup
        have hidle1 := idle_removedReport (E := E) hidle (hids ▸ List.mem_cons_self)
        set s0 : Reentry := s.remove E id
        set s1 : Reentry := { s0 with reports := s0.reports ++ [(id, s0.incarnation id)] }
        have hrest1 : s1.ids = rest := by
          have hfilter : s1.ids = (id :: rest).filter (· ≠ id) := hids ▸ ids_remove E s id
          rw [hfilter, List.filter_cons_of_neg (by simp), List.filter_eq_self]
          intro x hx
          rw [decide_eq_true_eq]
          rintro rfl
          exact (List.nodup_cons.mp hnodup).1 hx
        have hlen : s1.ids.length + 1 = s.ids.length := by
          rw [hrest1, ← hids, List.length_cons]
        have hopen := length_openIds_le s1
        apply (notify_returns app (closes_closeChannel app E fuel) (.close id reason) hidle1.inv
          (by omega)).bind
        rintro t ⟨htinv, hwithin⟩
        have hle := hwithin.ids.length_le
        apply ih (hidle1.within htinv hwithin) (by omega)
        · intro heq
          exact hrest1 ▸ (hwithin.same heq.symm).symm
        · intro hempty
          exact List.sublist_nil.mp ((hrest1.trans hempty) ▸ hwithin.ids)
        · split_ifs <;> omega
      · rw [if_pos hexp]
        rw [if_neg hexp] at hrounds
        exact ih hidle hfuel (fun _ => rfl) (fun hempty => hempty) (by rw [if_pos rfl]; omega)

/-- A write has sent its packet, or has stopped the stream and closed all channels. -/
theorem written_returns (app : Application) (pb : ProtocolBuffer) (hidle : Idle s)
    (hfuel : 2 * s.ids.length < fuel) :
    Returns (fun t => Idle t ∧ (t = s.emit [.send pb] ∨ t.ids = []))
      (written app true E (closeChannel app true E fuel) fuel s pb) := by
  have hsent : Idle (s.emit [.send pb]) :=
    hidle.within (hidle.inv.emit [.send pb]) (.emit s [.send pb])
  have hlen : (s.emit [.send pb]).ids.length = s.ids.length := rfl
  unfold written
  dsimp only
  cases (s.emit [.send pb]).handler.stops E pb with
  | none => exact ⟨hsent, .inl rfl⟩
  | some reason =>
    apply (closeChannelsLoop_returns reason hsent (by omega) (fun _ => rfl) id _).imp
    · exact fun t ht => ⟨ht.1, .inr ht.2⟩
    · rw [if_pos rfl]
      omega

theorem length_le_of_written {t : Reentry} {pb : ProtocolBuffer}
    (ht : t = s.emit [.send pb] ∨ t.ids = []) : t.ids.length ≤ s.ids.length := by
  rcases ht with rfl | hnil
  · exact le_refl _
  · rw [hnil]
    exact Nat.zero_le _

end Loops

section Packets

variable {app : Application} {E : MuxEnv} {fuel : ℕ} {s : Reentry} {pb : ProtocolBuffer}

theorem Idle.emit (h : Idle s) (events : List MuxEvent) : Idle (s.emit events) :=
  h.within (h.inv.emit events) (.emit s events)

theorem Idle.set (h : Idle s) {ch ch' : Channel} (hget : channelsGet s.handler.channels ch.id = some ch)
    (hid : ch'.id = ch.id) (htype : ch'.type = ch.type) (hremote : ch'.remoteId < 2 ^ 16)
    (hstatus : ch'.status ≠ .closing) : Idle (s.set ch') :=
  h.within (h.inv.set hget hid htype hremote hstatus) (.set s ch')

/-- A channel changed after a write; one that the write has closed is not there any more. -/
theorem Idle.set_written {t : Reentry} (h : Idle t)
    (ht : t = s.emit [.send pb] ∨ t.ids = []) {ch ch' : Channel}
    (hget : channelsGet s.handler.channels ch.id = some ch) (hid : ch'.id = ch.id)
    (htype : ch'.type = ch.type) (hremote : ch'.remoteId < 2 ^ 16) (hstatus : ch'.status ≠ .closing) :
    Idle (t.set ch') := by
  rcases ht with rfl | hnil
  · exact h.set hget hid htype hremote hstatus
  · rw [Reentry.set, set_of_channels_eq_nil (List.map_eq_nil_iff.mp hnil)]
    exact h

theorem Idle.touch (h : Idle s) (E : MuxEnv) (id : ℕ) : Idle (s.touch E id) :=
  h.within (h.inv.touch E id) (.touch E s id)

theorem Idle.remove (h : Idle s) (E : MuxEnv) (id : ℕ) : Idle (s.remove E id) :=
  ⟨h.inv.remove E id, (remove_reporting E s id).trans h.reporting,
    (remove_scanning E s id).trans h.scanning⟩

theorem Idle.enter (h : Idle s) {ch : Channel} (hfresh : s.handler.Fresh ch) :
    Idle (s.enter ch) ∧ (s.enter ch).ids = s.ids ++ [ch.id] := by
  have hids : (s.enter ch).ids = s.ids ++ [ch.id] := by
    unfold ids Reentry.enter
    rw [h.inv.handler.enter_channels hfresh, List.map_append, List.map_singleton]
  refine ⟨⟨?_, h.reporting, h.scanning⟩, hids⟩
  refine h.inv.bump (t := s.enter ch) (h.inv.handler.enter hfresh) rfl rfl rfl ?_
  intro x hx
  rw [hids, List.mem_append, List.mem_singleton] at hx
  exact hx.symm

theorem idle_notify (app : Application) (cb : Callback) (h : Idle s) (hfuel : s.ids.length < fuel) :
    Returns (fun t => Idle t ∧ t.ids.length ≤ s.ids.length)
      (notify app true (closeChannel app true E fuel) s cb) := by
  have hopen := (length_openIds_le s).trans_lt hfuel
  apply (notify_returns app (closes_closeChannel app E fuel) cb h.inv hopen).imp
  rintro t ⟨htinv, hwithin⟩
  exact ⟨h.within htinv hwithin, hwithin.ids.length_le⟩

/-- The callbacks after which the channel's timestamp is set. -/
theorem idle_notify_touch (app : Application) (cb : Callback) (id : ℕ) (h : Idle s)
    (hfuel : s.ids.length < fuel) :
    Returns (fun t => Idle t ∧ t.ids.length ≤ s.ids.length)
      ((notify app true (closeChannel app true E fuel) s cb).map (fun t => t.touch E id)) := by
  apply (idle_notify app cb h hfuel).map
  rintro t ⟨htidle, hle⟩
  exact ⟨htidle.touch E id, (Within.touch E t id).ids.length_le.trans hle⟩

theorem idle_notifyThenRemove (app : Application) {id : ℕ} (reason : CloseReason) (h : Idle s)
    (hid : id ∈ s.ids) (hfuel : s.ids.length < fuel) :
    Returns (fun t => Idle t ∧ t.ids.length ≤ s.ids.length)
      (notifyThenRemove app true E (closeChannel app true E fuel) s id reason) := by
  have hopen := (length_openIds_le s).trans_lt hfuel
  have hnot : id ∉ s.reporting := h.reporting ▸ List.not_mem_nil
  apply (notifyThenRemove_returns (closes_closeChannel app E fuel) id reason h.inv hid hnot h.scanning
    (by omega)).imp
  rintro t ⟨htinv, hwithin⟩
  exact ⟨h.within htinv hwithin, hwithin.ids.length_le⟩

theorem reNotifyChannelOpen_returns (h : Idle s) (hremote : pb.remoteChannelId < 2 ^ 16)
    (hfuel : 2 * s.ids.length + 2 < fuel) :
    Returns (fun t => Idle t ∧ t.ids.length ≤ s.ids.length + 1)
      (reNotifyChannelOpen app true E fuel s pb) := by
  unfold reNotifyChannelOpen
  dsimp only
  cases hch : incomingChannel E s.handler pb with
  | none =>
    dsimp only
    split_ifs
    · apply (written_returns app _ h (by omega)).imp
      rintro t ⟨htidle, ht⟩
      exact ⟨htidle, (length_le_of_written ht).trans (Nat.le_succ _)⟩
    · exact ⟨h, Nat.le_succ _⟩
  | some ch =>
    obtain ⟨hfresh, -, -⟩ := incomingChannel_eq_some h.inv.handler hremote hch
    obtain ⟨hidle, hids⟩ := h.enter hfresh
    have hlen := length_ids_enter h.inv.handler hfresh
    have hget : channelsGet (s.enter ch).handler.channels ch.id = some ch :=
      channelsGet_enter s.handler ch
    have hid : ch.id ∈ (s.enter ch).ids := hids ▸ List.mem_append_right _ List.mem_cons_self
    have hfuel' : (s.enter ch).ids.length < fuel := by omega
    set u : Reentry := (s.enter ch).emit [.channelOpen ch.id pb.cookie]
    have hu : Idle u := hidle.emit _
    have hulen : u.ids.length = s.ids.length + 1 := hlen
    dsimp only
    cases E.channelOpen ch pb.cookie with
    | false =>
      rw [Bool.false_and, if_neg Bool.false_ne_true, Bool.not_false]
      simp only [if_true]
      apply (written_returns app _ hu (by omega)).bind
      rintro t ⟨htidle, ht⟩
      have hle := length_le_of_written ht
      refine ⟨htidle.remove E ch.id, le_trans ?_ (hulen ▸ hle)⟩
      exact ids_remove E t _ ▸ List.length_filter_le _ _
    | true =>
      rw [Bool.true_and, Bool.not_true, if_pos rfl]
      simp only [Bool.false_eq_true, if_false, decide_eq_true_eq]
      split_ifs with hrc
      · apply (writtenThenReported_returns app _ fuel u _).bind
        rintro _ rfl
        rw [← hulen]
        exact idle_notifyThenRemove app .error (hu.emit _) hid hfuel'
      · apply (written_returns app _ hu (by omega)).bind
        rintro t ⟨htidle, ht⟩
        have hle := length_le_of_written ht
        have hopened : Idle (t.set { ch with status := .open }) :=
          htidle.set_written ht hget rfl rfl hfresh.remoteId nofun
        have hids2 : (t.set { ch with status := .open }).ids = t.ids := ids_set t _
        apply (idle_notify_touch app (.opened ch.id) ch.id hopened (by rw [hids2]; omega)).imp
        rintro v ⟨hvidle, hvle⟩
        exact ⟨hvidle, by rw [hids2] at hvle; omega⟩

theorem reNotifyChannel_returns (h : Idle s) (hremote : pb.remoteChannelId < 2 ^ 16) {ch : Channel}
    (hget : channelsGet s.handler.channels ch.id = some ch) (hfuel : s.ids.length < fuel) :
    Returns (fun t => Idle t ∧ t.ids.length ≤ s.ids.length)
      (reNotifyChannel app true E fuel s ch pb) := by
  have hid : ch.id ∈ s.ids := (get_isSome_iff s ch.id).mp (hget ▸ rfl)
  have hrid := h.inv.handler.remoteId ch (mem_of_channelsGet hget)
  have hstatus := h.inv.handler.status ch (mem_of_channelsGet hget)
  have hstay : Returns (fun t => Idle t ∧ t.ids.length ≤ s.ids.length) (.ok s) := ⟨h, le_refl _⟩
  -- a callback for the channel as the packet has changed it
  have hcallback (ch' : Channel) (cb : Callback) (hidle : Idle (s.set ch')) :
      Returns (fun t => Idle t ∧ t.ids.length ≤ s.ids.length)
        ((notify app true (closeChannel app true E fuel) (s.set ch') cb).map
          (fun t => t.touch E ch.id)) := by
    rw [← ids_set s ch'] at hfuel ⊢
    exact idle_notify_touch app cb ch.id hidle hfuel
  unfold reNotifyChannel
  cases PacketType.ofCode pb.type with
  | none => exact hstay
  | some t =>
    cases t with
    | channelOpen => exact hstay
    | channelOpenConfirmation =>
      dsimp only
      split_ifs with hst hsrc
      · exact hstay
      · exact hcallback { ch with status := .open, remoteId := pb.remoteChannelId } _
          (h.set hget rfl rfl hremote nofun)
      · exact idle_notifyThenRemove app .error h hid hfuel
    | channelData =>
      dsimp only
      split_ifs with hst
      · exact hstay
      · apply (idle_notify app (.data ch.id pb.payload) h hfuel).bind
        rintro t ⟨htidle, hle⟩
        split_ifs with hresult hgone
        · exact ⟨htidle.touch E ch.id, (Within.touch E t ch.id).ids.length_le.trans hle⟩
        · exact rfl
        · have hin : ch.id ∈ t.ids := by
            rw [← get_isSome_iff, Option.isSome_iff_ne_none]
            simpa using hgone
          apply (idle_notifyThenRemove app .error htidle hin (hle.trans_lt hfuel)).imp
          rintro u ⟨huidle, hule⟩
          exact ⟨huidle, hule.trans hle⟩
    | channelKeepAlive =>
      exact ⟨h.set hget rfl rfl hrid hstatus, (ids_set s _ ▸ le_refl _)⟩
    | channelPending =>
      dsimp only
      split_ifs with hst
      · exact hstay
      · exact hcallback { ch with status := .pending } _ (h.set hget rfl rfl hrid nofun)
    | channelResume =>
      dsimp only
      split_ifs with hst
      · exact hstay
      · exact hcallback { ch with status := .open } _ (h.set hget rfl rfl hrid nofun)
    | channelClose => exact idle_notifyThenRemove app .normal h hid hfuel

theorem reNotifyBytes_returns (h : Idle s) (p : Bytes) (hfuel : 2 * s.ids.length + 2 < fuel) :
    Returns (fun t => Idle t ∧ t.ids.length ≤ s.ids.length + 1)
      (reNotifyBytes app true E fuel s p) := by
  have hstay : Returns (fun t => Idle t ∧ t.ids.length ≤ s.ids.length + 1) (.ok s) :=
    ⟨h, Nat.le_succ _⟩
  unfold reNotifyBytes
  cases hpb : receivedPacket p with
  | none => exact hstay
  | some pb =>
    have hremote := (receivedPacket_eq_some hpb).1.remoteChannelId
    dsimp only
    split_ifs
    · exact ⟨h.emit _, Nat.le_succ _⟩
    · exact reNotifyChannelOpen_returns h hremote hfuel
    · cases hget : channelsGet s.handler.channels pb.localChannelId with
      | none => exact hstay
      | some ch =>
        rw [← channelsGet_id hget] at hget
        apply (reNotifyChannel_returns h hremote hget (by omega)).imp
        rintro t ⟨htidle, hle⟩
        exact ⟨htidle, by omega⟩

end Packets

section Runs

variable {app : Application} {E : MuxEnv} {fuel : ℕ} {s : Reentry}

theorem reOpenChannel_returns (h : Idle s) {type : ChannelType} {cookie : Option Bytes}
    {timeout : ℤ} {r : MuxCall}
    (hr : multiplexHandlerOpenChannel E s.handler type cookie timeout = some r)
    (hfuel : 2 * s.ids.length + 2 < fuel) :
    Returns (fun t => Idle t ∧ t.ids.length ≤ s.ids.length + 1)
      (reOpenChannel app true E fuel s type cookie timeout) := by
  unfold reOpenChannel
  rcases openChannel_eq_some h.inv.handler hr with ⟨hneg, -⟩ | ⟨ch, hch, hfresh, -, -⟩
  · rw [if_pos hneg]
    exact ⟨h, Nat.le_succ _⟩
  · have hpos : ¬(idsHeapAlloc s.handler.channelIds).2 < 0 := by
      rw [hfresh.id]
      exact (Int.natCast_nonneg _).not_gt
    subst hch
    set ch := newChannel E s.handler type timeout
    have hlen := length_ids_enter h.inv.handler hfresh
    obtain ⟨hidle, -⟩ := h.enter hfresh
    rw [if_neg hpos, ← hlen]
    dsimp only
    apply (written_returns app _ hidle (by omega)).map
    rintro t ⟨htidle, ht⟩
    have hle := length_le_of_written ht
    split_ifs
    · refine ⟨htidle.remove E ch.id, le_trans ?_ hle⟩
      rw [ids_remove]
      exact List.length_filter_le _ _
    · exact ⟨htidle, hle⟩

theorem reSendOnChannel_returns (h : Idle s) (cid : ℕ) (type : PacketType) (payload : Bytes)
    (keeps : ℤ → Bool) (hfuel : 2 * s.ids.length < fuel) :
    Returns (fun t => Idle t ∧ t.ids.length ≤ s.ids.length)
      (reSendOnChannel app true E fuel s cid type payload keeps) := by
  unfold reSendOnChannel
  cases hget : channelsGet s.handler.channels cid with
  | none => exact ⟨h, le_refl _⟩
  | some ch =>
    dsimp only
    split_ifs with hst hrid hkeeps
    · exact ⟨h, le_refl _⟩
    · exact ⟨h, le_refl _⟩
    · apply (written_returns app _ h hfuel).map
      rintro t ⟨htidle, ht⟩
      rw [← channelsGet_id hget] at hget
      have hmem := mem_of_channelsGet hget
      have hremote := h.inv.handler.remoteId ch hmem
      have hstatus := h.inv.handler.status ch hmem
      exact ⟨htidle.set_written ht hget rfl rfl hremote hstatus,
        (congrArg List.length (ids_set t _)).le.trans (length_le_of_written ht)⟩
    · apply (written_returns app _ h hfuel).map
      exact fun t ht => ⟨ht.1, length_le_of_written ht.2⟩

theorem reWriteChannel_returns (h : Idle s) (cid : ℕ) (data : Bytes)
    (hfuel : 2 * s.ids.length < fuel) :
    Returns (fun t => Idle t ∧ t.ids.length ≤ s.ids.length)
      (reWriteChannel app true E fuel s cid data) := by
  unfold reWriteChannel
  split_ifs
  · apply (written_returns app _ h hfuel).imp
    exact fun t ht => ⟨ht.1, length_le_of_written ht.2⟩
  · exact reSendOnChannel_returns h cid _ data _ hfuel

theorem reCall_returns (h : Idle s) {op : MuxOp} {r : MuxCall}
    (hr : muxCall E s.handler op = some r) (hfuel : 2 * s.ids.length + 2 < fuel) :
    Returns (fun t => Idle t ∧ t.ids.length ≤ s.ids.length + 1) (reCall app true E fuel s op) := by
  have hweaken {x : Except Stop Reentry}
      (hx : Returns (fun t => Idle t ∧ t.ids.length ≤ s.ids.length) x) :
      Returns (fun t => Idle t ∧ t.ids.length ≤ s.ids.length + 1) x :=
    hx.imp (fun t ht => ⟨ht.1, ht.2.trans (Nat.le_succ _)⟩)
  have hcloseAll (reason : CloseReason) :
      Returns (fun t => Idle t ∧ t.ids.length ≤ s.ids.length + 1)
        (closeChannelsLoop app true E (closeChannel app true E fuel) reason fuel s s.ids s.modCount) :=
    (closeChannelsLoop_returns reason h (by omega) (fun _ => rfl) id
      (by rw [if_pos rfl]; omega)).imp (fun t ht => ⟨ht.1, ht.2 ▸ Nat.zero_le _⟩)
  cases op with
  | receive trace p => exact reNotifyBytes_returns h p hfuel
  | openChannel type cookie timeout => exact reOpenChannel_returns h hr hfuel
  | closeChannel cid =>
    have hopen := length_openIds_le s
    have hcare : s.careless cid = false := by simp [careless, h.reporting, h.scanning]
    apply (closes_closeChannel app E fuel s cid h.inv (by omega) hcare).imp
    rintro t ⟨htinv, hwithin⟩
    exact ⟨h.within htinv hwithin, hwithin.ids.length_le.trans (Nat.le_succ _)⟩
  | writeChannel cid data => exact hweaken (reWriteChannel_returns h cid data (by omega))
  | pendChannel cid =>
    exact hweaken (reSendOnChannel_returns h cid .channelPending [] (fun rc => rc = 0) (by omega))
  | resumeChannel cid =>
    exact hweaken (reSendOnChannel_returns h cid .channelResume [] (fun rc => rc = 0) (by omega))
  | checkpoint => exact hweaken (checkpointLoop_returns h (by omega) (by omega))
  | stateChanged state =>
    cases state with
    | closed => exact hcloseAll .normal
    | failed => exact hcloseAll .error
    | _ => exact ⟨h, Nat.le_succ _⟩
  | stop => exact hcloseAll .normal

theorem reRun_returns (app : Application) {acts : List MuxAct} (h : Idle s)
    (hfuel : 2 * (s.ids.length + acts.length) < fuel) :
    Returns Idle (reRun app true fuel s acts) := by
  induction acts generalizing s with
  | nil => exact h
  | cons act acts ih =>
    obtain ⟨E, op⟩ := act
    rw [List.length_cons] at hfuel
    unfold reRun
    cases hr : muxCall E s.handler op with
    | none => exact h
    | some r =>
      apply (reCall_returns h hr (by omega)).bind
      rintro t ⟨htidle, hle⟩
      exact ih htidle (by omega)

end Runs

section Watching

variable (app : Application) (E : MuxEnv) {close close' : Reentry → ℕ → Except Stop Reentry}

/-- A watched callback that returns is one that nobody watches. -/
theorem closeAll_agrees (hclose : ∀ s cid, Agrees (close s cid) (close' s cid)) (cids : List ℕ)
    (s : Reentry) : Agrees (closeAll true close cids s) (closeAll false close' cids s) := by
  induction cids generalizing s with
  | nil => exact .refl _
  | cons cid cids ih =>
    unfold closeAll
    rw [Bool.true_and, Bool.false_and, if_neg Bool.false_ne_true]
    split_ifs
    · exact nofun
    · exact (hclose s cid).bind ih

theorem notify_agrees (hclose : ∀ s cid, Agrees (close s cid) (close' s cid)) (s : Reentry)
    (cb : Callback) : Agrees (notify app true close s cb) (notify app false close' s cb) :=
  closeAll_agrees hclose _ _

theorem notifyThenRemove_agrees (hclose : ∀ s cid, Agrees (close s cid) (close' s cid)) (s : Reentry)
    (id : ℕ) (reason : CloseReason) :
    Agrees (notifyThenRemove app true E close s id reason)
      (notifyThenRemove app false E close' s id reason) :=
  (notify_agrees app hclose _ _).map _

theorem closeChannelsLoop_agrees (hclose : ∀ s cid, Agrees (close s cid) (close' s cid))
    (reason : CloseReason) (rounds : ℕ) (s : Reentry) (rest : List ℕ) (expected : ℕ) :
    Agrees (closeChannelsLoop app true E close reason rounds s rest expected)
      (closeChannelsLoop app false E close' reason rounds s rest expected) := by
  induction rounds generalizing s rest expected with
  | zero => exact .refl _
  | succ rounds ih =>
    cases rest with
    | nil => exact .refl _
    | cons id rest =>
      unfold closeChannelsLoop
      split_ifs
      · exact ih _ _ _
      · exact (notify_agrees app hclose _ _).bind (fun t => ih t _ _)

theorem written_agrees (hclose : ∀ s cid, Agrees (close s cid) (close' s cid)) (rounds : ℕ)
    (s : Reentry) (pb : ProtocolBuffer) :
    Agrees (written app true E close rounds s pb) (written app false E close' rounds s pb) := by
  unfold written
  dsimp only
  cases (s.emit [.send pb]).handler.stops E pb with
  | none => exact .refl _
  | some reason => exact closeChannelsLoop_agrees app E hclose reason rounds _ _ _

theorem writtenThenReported_agrees (hclose : ∀ s cid, Agrees (close s cid) (close' s cid)) (rounds : ℕ)
    (s : Reentry) (pb : ProtocolBuffer) :
    Agrees (writtenThenReported app true E close rounds s pb)
      (writtenThenReported app false E close' rounds s pb) := by
  unfold writtenThenReported
  rw [Bool.true_and, Bool.false_and, if_neg Bool.false_ne_true]
  split_ifs
  · exact nofun
  · exact written_agrees app E hclose rounds s pb

theorem closeChannel_agrees (fuel : ℕ) (s : Reentry) (cid : ℕ) :
    Agrees (closeChannel app true E fuel s cid) (closeChannel app false E fuel s cid) := by
  induction fuel generalizing s cid with
  | zero => exact .refl _
  | succ fuel ih =>
    unfold closeChannel
    cases channelsGet s.handler.channels cid with
    | none => exact .refl _
    | some ch =>
      dsimp only
      split_ifs
      · exact notifyThenRemove_agrees app E ih _ _ _
      · apply (writtenThenReported_agrees app E ih _ _ _).bind
        exact fun t => notifyThenRemove_agrees app E ih t ch.id .normal

theorem reNotifyChannelOpen_agrees (fuel : ℕ) (s : Reentry) (pb : ProtocolBuffer) :
    Agrees (reNotifyChannelOpen app true E fuel s pb) (reNotifyChannelOpen app false E fuel s pb) := by
  have hclose := closeChannel_agrees app E fuel
  unfold reNotifyChannelOpen
  dsimp only
  cases incomingChannel E s.handler pb with
  | none =>
    dsimp only
    split_ifs
    · exact written_agrees app E hclose _ _ _
    · exact .refl _
  | some ch =>
    dsimp only
    cases E.channelOpen ch pb.cookie with
    | false => exact (written_agrees app E hclose _ _ _).bind (fun t => .refl _)
    | true =>
      rw [Bool.true_and, Bool.not_true, if_pos rfl]
      simp only [Bool.false_eq_true, if_false, decide_eq_true_eq]
      split_ifs
      · apply (writtenThenReported_agrees app E hclose _ _ _).bind
        exact fun t => notifyThenRemove_agrees app E hclose t ch.id .error
      · apply (written_agrees app E hclose _ _ _).bind
        exact fun t => (notify_agrees app hclose _ _).map _

theorem reOpenChannel_agrees (fuel : ℕ) (s : Reentry) (type : ChannelType) (cookie : Option Bytes)
    (timeout : ℤ) :
    Agrees (reOpenChannel app true E fuel s type cookie timeout)
      (reOpenChannel app false E fuel s type cookie timeout) := by
  unfold reOpenChannel
  split_ifs
  · exact .refl _
  · exact (written_agrees app E (closeChannel_agrees app E fuel) _ _ _).map _

theorem reSendOnChannel_agrees (fuel : ℕ) (s : Reentry) (cid : ℕ) (type : PacketType)
    (payload : Bytes) (keeps : ℤ → Bool) :
    Agrees (reSendOnChannel app true E fuel s cid type payload keeps)
      (reSendOnChannel app false E fuel s cid type payload keeps) := by
  unfold reSendOnChannel
  cases channelsGet s.handler.channels cid with
  | none => exact .refl _
  | some ch =>
    dsimp only
    split_ifs
    · exact .refl _
    · exact .refl _
    · exact (written_agrees app E (closeChannel_agrees app E fuel) _ _ _).map _
    · exact (written_agrees app E (closeChannel_agrees app E fuel) _ _ _).map _

theorem reWriteChannel_agrees (fuel : ℕ) (s : Reentry) (cid : ℕ) (data : Bytes) :
    Agrees (reWriteChannel app true E fuel s cid data)
      (reWriteChannel app false E fuel s cid data) := by
  unfold reWriteChannel
  split_ifs
  · exact written_agrees app E (closeChannel_agrees app E fuel) _ _ _
  · exact reSendOnChannel_agrees app E fuel s cid .channelData data _

theorem reNotifyChannel_agrees (fuel : ℕ) (s : Reentry) (ch : Channel) (pb : ProtocolBuffer) :
    Agrees (reNotifyChannel app true E fuel s ch pb) (reNotifyChannel app false E fuel s ch pb) := by
  have hclose := closeChannel_agrees app E fuel
  have hremove (s : Reentry) (reason : CloseReason) := notifyThenRemove_agrees app E hclose s ch.id reason
  have hcallback (s : Reentry) (cb : Callback) := (notify_agrees app hclose s cb).map (touch E · ch.id)
  unfold reNotifyChannel
  cases PacketType.ofCode pb.type with
  | none => exact .refl _
  | some t =>
    cases t with
    | channelOpen => exact .refl _
    | channelOpenConfirmation =>
      dsimp only
      split_ifs
      · exact .refl _
      · exact hcallback _ _
      · exact hremove _ _
    | channelData =>
      dsimp only
      split_ifs
      · exact .refl _
      · apply (notify_agrees app hclose _ _).bind
        intro t
        rw [Bool.true_and, Bool.false_and, if_neg Bool.false_ne_true]
        split_ifs
        · exact .refl _
        · exact nofun
        · exact hremove _ _
    | channelKeepAlive => exact .refl _
    | channelPending =>
      dsimp only
      split_ifs
      · exact .refl _
      · exact hcallback _ _
    | channelResume =>
      dsimp only
      split_ifs
      · exact .refl _
      · exact hcallback _ _
    | channelClose => exact hremove _ _

theorem reNotifyBytes_agrees (fuel : ℕ) (s : Reentry) (p : Bytes) :
    Agrees (reNotifyBytes app true E fuel s p) (reNotifyBytes app false E fuel s p) := by
  unfold reNotifyBytes
  cases receivedPacket p with
  | none => exact .refl _
  | some pb =>
    dsimp only
    split_ifs
    · exact .refl _
    · exact reNotifyChannelOpen_agrees app E fuel s pb
    · cases channelsGet s.handler.channels pb.localChannelId with
      | none => exact .refl _
      | some ch => exact reNotifyChannel_agrees app E fuel s ch pb

theorem checkpointLoop_agrees (fuel rounds : ℕ) (s : Reentry) (rest : List ℕ) (expected : ℕ) :
    Agrees (checkpointLoop app true E fuel rounds s rest expected)
      (checkpointLoop app false E fuel rounds s rest expected) := by
  induction rounds generalizing s rest expected with
  | zero => exact .refl _
  | succ rounds ih =>
    cases rest with
    | nil => exact .refl _
    | cons id rest =>
      unfold checkpointLoop
      split_ifs
      · exact ih _ _ _
      · cases channelsGet s.handler.channels id with
        | none => exact ih _ _ _
        | some ch =>
          dsimp only
          split_ifs
          · apply (notify_agrees app (closeChannel_agrees app E fuel) _ _).bind
            intro t
            split_ifs
            · exact ih _ _ _
            · exact ih _ _ _
          · exact ih _ _ _

theorem reCall_agrees (fuel : ℕ) (s : Reentry) (op : MuxOp) :
    Agrees (reCall app true E fuel s op) (reCall app false E fuel s op) := by
  have hcloseAll (reason : CloseReason) :=
    closeChannelsLoop_agrees app E (closeChannel_agrees app E fuel) reason fuel s s.ids s.modCount
  cases op with
  | receive trace p => exact reNotifyBytes_agrees app E fuel s p
  | openChannel type cookie timeout => exact reOpenChannel_agrees app E fuel s type cookie timeout
  | closeChannel cid => exact closeChannel_agrees app E fuel s cid
  | writeChannel cid data => exact reWriteChannel_agrees app E fuel s cid data
  | pendChannel cid =>
    exact reSendOnChannel_agrees app E fuel s cid .channelPending [] (fun rc => rc = 0)
  | resumeChannel cid =>
    exact reSendOnChannel_agrees app E fuel s cid .channelResume [] (fun rc => rc = 0)
  | checkpoint => exact checkpointLoop_agrees app E fuel fuel s s.ids s.modCount
  | stateChanged state =>
    cases state with
    | closed => exact hcloseAll .normal
    | failed => exact hcloseAll .error
    | _ => exact .refl _
  | stop => exact hcloseAll .normal

theorem reRun_agrees (fuel : ℕ) (s : Reentry) (acts : List MuxAct) :
    Agrees (reRun app true fuel s acts) (reRun app false fuel s acts) := by
  induction acts generalizing s with
  | nil => exact .refl _
  | cons act acts ih =>
    obtain ⟨E, op⟩ := act
    unfold reRun
    cases muxCall E s.handler op with
    | none => exact .refl _
    | some r => exact (reCall_agrees app E fuel s op).bind ih

end Watching

theorem idle_init (worker reliable : Bool) : Idle (.init worker reliable) where
  inv :=
    { handler := MultiplexHandler.inv_create worker reliable
      once := fun _ => Nat.zero_le 1
      known := fun _ _ hmem => absurd hmem List.not_mem_nil
      fresh := fun _ hid => absurd hid List.not_mem_nil }
  reporting := rfl
  scanning := rfl

/-- Where the application is careful, every run returns and reports each channel as closed at most
once. -/
theorem closesOnce_of_careful {app : Application} {worker reliable : Bool} {acts : List MuxAct}
    (hcare : Careful app worker reliable acts) : ClosesOnce app worker reliable acts := by
  refine ⟨2 * acts.length + 1, fun fuel hfuel => ?_⟩
  have hidle := idle_init worker reliable
  have hbound : 2 * ((Reentry.init worker reliable).ids.length + acts.length) < fuel := by
    rw [show (Reentry.init worker reliable).ids.length = 0 from rfl]
    omega
  have hends := reRun_returns app hidle hbound
  cases hrun : reRun app true fuel (.init worker reliable) acts with
  | error e =>
    rw [hrun] at hends
    exact absurd (hends ▸ hrun) (hcare fuel)
  | ok t =>
    rw [hrun] at hends
    exact ⟨t, reRun_agrees app fuel _ acts t hrun, fun id inc => hends.inv.once (id, inc)⟩

/-- It closes the next channel when it is told that one was closed. -/
def closeNext : Application where
  closes _ cb :=
    match cb with
    | .close id _ => [id + 1]
    | _ => []
  result _ _ := true

theorem closesOnce_closeNext :
    ClosesOnce closeNext false false
      [(linkEnv .modWidth ⟨0, 0⟩, .openChannel .user none 0),
        (linkEnv .modWidth ⟨0, 0⟩, .openChannel .user none 0),
        (linkEnv .modWidth ⟨0, 0⟩, .closeChannel 1)] := by
  apply closesOnce_of_careful
  intro fuel
  set acts : List MuxAct :=
    [(linkEnv .modWidth ⟨0, 0⟩, .openChannel .user none 0),
      (linkEnv .modWidth ⟨0, 0⟩, .openChannel .user none 0),
      (linkEnv .modWidth ⟨0, 0⟩, .closeChannel 1)]
  obtain hshort | ⟨t, ht⟩ : reRun closeNext true fuel (.init false false) acts = .error .fuel ∨
      ∃ t, reRun closeNext true fuel (.init false false) acts = .ok t := by
    match fuel with
    | 0 => exact .inl rfl
    | 1 => exact .inl rfl
    | 2 => exact .inl rfl
    | fuel + 3 => exact .inr ⟨_, rfl⟩
  · rw [hshort]
    nofun
  · rw [ht]
    nofun

/-- It closes the channel whose close it is told of. -/
def closeAgain : Application where
  closes _ cb :=
    match cb with
    | .close id _ => [id]
    | _ => []
  result _ _ := true

/-- As the channel stays in the table for its report, the report closes it again. -/
theorem closeChannel_closeAgain {E : MuxEnv} (hstop : ∀ pb, E.stop pb = none) (fuel : ℕ)
    {s : Reentry} {cid : ℕ} (hid : cid ∈ s.ids) :
    closeChannel closeAgain false E fuel s cid = .error .fuel := by
  induction fuel generalizing s with
  | zero => rfl
  | succ fuel ih =>
    obtain ⟨ch, hget⟩ := Option.isSome_iff_exists.mp ((get_isSome_iff s cid).mpr hid)
    have hch := channelsGet_id hget
    have hreport (u : Reentry) (hu : cid ∈ u.ids) :
        notifyThenRemove closeAgain false E (closeChannel closeAgain false E fuel) u cid .normal =
          .error .fuel := by
      have hnested : closeAll false (closeChannel closeAgain false E fuel) [cid]
          ((reportState u cid).emit [.channelClose cid .normal]) = .error .fuel := by
        unfold closeAll
        rw [Bool.false_and, if_neg Bool.false_ne_true, ih (s := (reportState u cid).emit _) hu]
        rfl
      exact congrArg (Except.map _) hnested
    have hwritten (pb : ProtocolBuffer) :
        writtenThenReported closeAgain false E (closeChannel closeAgain false E fuel) fuel s pb =
          .ok (s.emit [.send pb]) := by
      have hstops : (s.emit [.send pb]).handler.stops E pb = none := by
        rw [MultiplexHandler.stops, hstop]
        exact ite_self _
      rw [writtenThenReported, Bool.false_and, if_neg Bool.false_ne_true, written, hstops]
    unfold closeChannel
    rw [hget]
    dsimp only
    rw [hch, hwritten]
    split_ifs
    · exact hreport s hid
    · exact hreport (s.emit _) hid

/-- It never returns from a close of its first channel. -/
theorem not_closesOnce_closeAgain :
    ¬ClosesOnce closeAgain false false
      [(linkEnv .modWidth ⟨0, 0⟩, .openChannel .user none 0),
        (linkEnv .modWidth ⟨0, 0⟩, .closeChannel 1)] := by
  rintro ⟨least, hruns⟩
  obtain ⟨t, ht, -⟩ := hruns least (le_refl _)
  set E := linkEnv .modWidth ⟨0, 0⟩
  obtain ⟨s, r, hs, hid, hr⟩ : ∃ s r,
      reOpenChannel closeAgain false E least (.init false false) .user none 0 = .ok s ∧
      1 ∈ s.ids ∧ muxCall E s.handler (.closeChannel 1) = some r := ⟨_, _, rfl, by decide, rfl⟩
  have hclose : reRun closeAgain false least s [(E, .closeChannel 1)] = .error .fuel := by
    unfold reRun
    rw [hr]
    dsimp only [reCall]
    rw [closeChannel_closeAgain (fun _ => rfl) least hid]
    rfl
  have hrun : reRun closeAgain false least (.init false false)
      [(E, .openChannel .user none 0), (E, .closeChannel 1)] =
        (reOpenChannel closeAgain false E least (.init false false) .user none 0).bind
          (reRun closeAgain false least · [(E, .closeChannel 1)]) := rfl
  rw [hs] at hrun
  rw [hrun] at ht
  cases hclose.symm.trans ht

end Carrier.Session
