import Carrier.Core.RemoteStrings

/-! Descriptions of friends and the calls of `friend_info` in `carrier/IOEX_carrier.c`. The callback
is set. The variable `changed` is not initialized; what it happens to hold is a parameter. -/
namespace Carrier.Core
open Carrier.Lib Schema

/-- What a packet says of a user, with the id kept. -/
def UserInfo.describedBy (ui : UserInfo) (cp : IOEXCP) : UserInfo :=
  ⟨ui.userid, orEmpty cp.getName, orEmpty cp.getDescr, cp.getHasAvatar.getD false,
    orEmpty cp.getGender, orEmpty cp.getPhone, orEmpty cp.getEmail, orEmpty cp.getRegion⟩

/-- `did_changed` at the end of `unpack_user_desc` -/
def didChanged (info : UserInfo) (cp : IOEXCP) : Bool :=
  info.name ≠ orEmpty cp.getName || info.description ≠ orEmpty cp.getDescr ||
    info.gender ≠ orEmpty cp.getGender || info.phone ≠ orEmpty cp.getPhone ||
    info.email ≠ orEmpty cp.getEmail || info.region ≠ orEmpty cp.getRegion ||
    info.hasAvatar ≠ cp.getHasAvatar.getD false

/-- A user info whose strings are within its arrays. -/
abbrev StoredInfo := { ui : UserInfo // ui.Held }

theorem held_of_unpackUserDesc {desc : Option IOEXCP} {info ui : UserInfo} {copies : List Copy}
    (hinfo : info.Held) (h : unpackUserDesc desc info = some (ui, copies))
    (hfits : ∀ c ∈ copies, c.Fits) : ui.Held := by
  cases desc with
  | none => cases h
  | some cp =>
    obtain ⟨hcopies, hheld⟩ := unpackUserDesc_fits hinfo h
    exact hheld (hcopies.mp hfits)

/-- `unpack_user_desc` of a description and a variable `changed`, which only a packet of the right
type sets. `none` is a copy beyond its array. -/
def unpackInto (desc : Option IOEXCP) (info : StoredInfo) (changed : Bool) :
    Option (StoredInfo × Bool) :=
  match hunpack : unpackUserDesc desc info.val with
  | none => some (info, changed)
  | some (ui, copies) =>
    if hfits : ∀ c ∈ copies, c.Fits then
      some (⟨ui, held_of_unpackUserDesc info.property hunpack hfits⟩,
        (desc.map (didChanged info.val)).getD changed)
    else none

/-- The friends, and the calls of `friend_info`, the latest first. -/
structure FriendInfos where
  friends : FriendCode → Option StoredInfo
  reported : List (ℕ × UserInfo)

namespace FriendInfos

def notifyFriendInfo (w : FriendInfos) (f : FriendArg) (ui : UserInfo) : FriendInfos :=
  if (w.friends f.code).isSome then { w with reported := (f.number, ui) :: w.reported } else w

/-- `notify_friend_description_cb`, given what `changed` holds at its entry -/
def notifyFriendDescriptionCb (flatcc : BufferLibrary) (garbage : Bool) (w : FriendInfos) (f : FriendArg)
    (desc : Bytes) : Option FriendInfos :=
  match w.friends f.code with
  | none => some w
  | some info =>
    if desc = [] then some w
    else
      match unpackInto (ioexcpDecode flatcc desc) info garbage with
      | none => none
      | some (info, changed) =>
        let w := { w with friends := Function.update w.friends f.code (some info) }
        some (if changed then w.notifyFriendInfo f info.val else w)

end FriendInfos

def Differs (cp : IOEXCP) (ui : UserInfo) : Prop :=
  orEmpty cp.getName ≠ ui.name ∨ orEmpty cp.getDescr ≠ ui.description ∨
    orEmpty cp.getGender ≠ ui.gender ∨ orEmpty cp.getPhone ≠ ui.phone ∨
    orEmpty cp.getEmail ≠ ui.email ∨ orEmpty cp.getRegion ≠ ui.region ∨
    cp.getHasAvatar.getD false ≠ ui.hasAvatar

/-- What the bytes of a description decode to, if it is a user info. -/
def userinfoIn (flatcc : BufferLibrary) (desc : Bytes) : Option IOEXCP :=
  if desc = [] then none else (ioexcpDecode flatcc desc).filter (·.getType = typeUserinfo)

namespace FriendInfos

/-- The callback is called exactly for a user info that differs from the stored one, which then takes
its place. -/
def ReportsExactly (flatcc : BufferLibrary) (garbage : Bool) (w : FriendInfos) (f : FriendArg)
    (desc : Bytes) (ui : UserInfo) : Prop :=
  ∃ w', w.notifyFriendDescriptionCb flatcc garbage f desc = some w' ∧
    (∀ c ≠ f.code, w'.friends c = w.friends c) ∧
    ((∃ cp ∈ userinfoIn flatcc desc, Differs cp ui ∧
        (w'.friends f.code).map Subtype.val = some (ui.describedBy cp) ∧
        w'.reported = (f.number, ui.describedBy cp) :: w.reported) ∨
      (¬∃ cp ∈ userinfoIn flatcc desc, Differs cp ui) ∧
        (w'.friends f.code).map Subtype.val = some ui ∧ w'.reported = w.reported)

end FriendInfos

theorem didChanged_iff (info : UserInfo) (cp : IOEXCP) :
    didChanged info cp = true ↔ Differs cp info := by
  simp only [didChanged, Differs, Bool.or_eq_true, decide_eq_true_eq, or_assoc, ne_comm]

theorem describedBy_eq_self {ui : UserInfo} {cp : IOEXCP} (h : ¬Differs cp ui) :
    ui.describedBy cp = ui := by
  simp only [Differs, not_or, not_not] at h
  obtain ⟨hname, hdescr, hgender, hphone, hemail, hregion, havatar⟩ := h
  rw [UserInfo.describedBy, hname, hdescr, hgender, hphone, hemail, hregion, havatar]

theorem eq_describedBy {cp : IOEXCP} {info ui : UserInfo} {copies : List Copy}
    (h : unpackUserDesc (some cp) info = some (ui, copies)) : ui = info.describedBy cp := by
  unfold unpackUserDesc at h
  dsimp only at h
  split_ifs at h
  cases h
  rfl

theorem userinfoIn_eq_some {flatcc : BufferLibrary} {desc : Bytes} {cp : IOEXCP}
    (h : userinfoIn flatcc desc = some cp) :
    desc ≠ [] ∧ ioexcpDecode flatcc desc = some cp ∧ cp.getType = typeUserinfo := by
  unfold userinfoIn at h
  split_ifs at h with hempty
  obtain ⟨hdecode, htype⟩ := Option.filter_eq_some_iff.mp h
  exact ⟨hempty, hdecode, of_decide_eq_true htype⟩

theorem unpackUserDesc_eq_none {flatcc : BufferLibrary} {desc : Bytes} (hne : desc ≠ [])
    (h : userinfoIn flatcc desc = none) (info : UserInfo) :
    unpackUserDesc (ioexcpDecode flatcc desc) info = none := by
  rw [userinfoIn, if_neg hne] at h
  cases hdecode : ioexcpDecode flatcc desc with
  | none => rfl
  | some cp =>
    rw [hdecode, Option.filter_eq_none_iff] at h
    apply unpackUserDesc_type.mpr
    intro htype
    exact h cp rfl (decide_eq_true htype)

theorem unpackInto_of_none {desc : Option IOEXCP} {info : StoredInfo}
    (h : unpackUserDesc desc info.val = none) (changed : Bool) :
    unpackInto desc info changed = some (info, changed) := by
  unfold unpackInto
  split
  · rfl
  · rename_i ui copies hsome
    cases h.symm.trans hsome

/-- A packet of the right type is taken over if its strings fit. -/
theorem unpackInto_of_type {cp : IOEXCP} (htype : cp.getType = typeUserinfo) (info : StoredInfo)
    (changed : Bool) :
    (DescFits cp → ∃ hheld, unpackInto (some cp) info changed =
      some (⟨info.val.describedBy cp, hheld⟩, didChanged info.val cp)) ∧
    (¬DescFits cp → unpackInto (some cp) info changed = none) := by
  unfold unpackInto
  split
  · rename_i hnone
    exact absurd htype (unpackUserDesc_type.mp hnone)
  · rename_i ui copies hsome
    obtain ⟨hcopies, -⟩ := unpackUserDesc_fits info.property hsome
    cases eq_describedBy hsome
    constructor
    · intro hfits
      have hall := hcopies.mpr hfits
      exact ⟨held_of_unpackUserDesc info.property hsome hall, dif_pos hall⟩
    · intro hnot
      exact dif_neg (fun hall => hnot (hcopies.mp hall))

namespace FriendInfos

section

variable {flatcc : BufferLibrary} {w : FriendInfos} {f : FriendArg} {info : StoredInfo}

theorem notifyFriendInfo_known (h : w.friends f.code = some info) (ui : UserInfo) :
    w.notifyFriendInfo f ui = { w with reported := (f.number, ui) :: w.reported } := by
  rw [notifyFriendInfo, h]
  rfl

/-- Without a user info the friend stays, and the callback depends on what `changed` held. -/
theorem notify_of_none (garbage : Bool) (hinfo : w.friends f.code = some info) {desc : Bytes}
    (hne : desc ≠ []) (h : userinfoIn flatcc desc = none) :
    w.notifyFriendDescriptionCb flatcc garbage f desc =
      some (if garbage then { w with reported := (f.number, info.val) :: w.reported } else w) := by
  have hunpack := unpackInto_of_none (unpackUserDesc_eq_none hne h info.val) garbage
  have hsame : Function.update w.friends f.code (some info) = w.friends := by
    rw [← hinfo, Function.update_eq_self]
  unfold notifyFriendDescriptionCb
  simp only [hinfo, if_neg hne, hunpack, hsame, notifyFriendInfo_known hinfo]

/-- A user info whose strings fit takes the place of the stored one. -/
theorem notify_of_fits (garbage : Bool) (hinfo : w.friends f.code = some info) {desc : Bytes}
    {cp : IOEXCP} (h : userinfoIn flatcc desc = some cp) (hfits : DescFits cp) : ∃ hheld,
    w.notifyFriendDescriptionCb flatcc garbage f desc =
      some ⟨Function.update w.friends f.code (some ⟨info.val.describedBy cp, hheld⟩),
        if didChanged info.val cp then (f.number, info.val.describedBy cp) :: w.reported
        else w.reported⟩ := by
  obtain ⟨hne, hdecode, htype⟩ := userinfoIn_eq_some h
  obtain ⟨hheld, hunpack⟩ := (unpackInto_of_type htype info garbage).1 hfits
  refine ⟨hheld, ?_⟩
  unfold notifyFriendDescriptionCb
  simp only [hinfo, if_neg hne, hdecode, hunpack]
  split_ifs
  · rw [notifyFriendInfo_known (Function.update_self ..)]
  · rfl

theorem notify_of_not_fits (garbage : Bool) (hinfo : w.friends f.code = some info) {desc : Bytes}
    {cp : IOEXCP} (h : userinfoIn flatcc desc = some cp) (hnot : ¬DescFits cp) :
    w.notifyFriendDescriptionCb flatcc garbage f desc = none := by
  obtain ⟨hne, hdecode, htype⟩ := userinfoIn_eq_some h
  have hunpack := (unpackInto_of_type htype info garbage).2 hnot
  unfold notifyFriendDescriptionCb
  simp only [hinfo, if_neg hne, hdecode, hunpack]

theorem reportsExactly_nil (garbage : Bool) (hinfo : w.friends f.code = some info) :
    w.ReportsExactly flatcc garbage f [] info.val := by
  refine ⟨w, ?_, fun _ _ => rfl, .inr ⟨?_, ?_, rfl⟩⟩
  · unfold notifyFriendDescriptionCb
    rw [hinfo]
    rfl
  · rintro ⟨cp, hcp, -⟩
    cases hcp
  · rw [hinfo]
    rfl

theorem reportsExactly_of_none (garbage : Bool) (hinfo : w.friends f.code = some info) {desc : Bytes}
    (hne : desc ≠ []) (h : userinfoIn flatcc desc = none) :
    w.ReportsExactly flatcc garbage f desc info.val ↔ garbage = false := by
  have hnotify := notify_of_none garbage hinfo hne h
  have hnobody : ¬∃ cp ∈ userinfoIn flatcc desc, Differs cp info.val := by
    rw [h]
    rintro ⟨cp, hcp, -⟩
    cases hcp
  constructor
  · rintro ⟨w', hw', -, hreported⟩
    obtain ⟨cp, hcp, hdiffers, -⟩ | ⟨-, -, hsame⟩ := hreported
    · exact absurd ⟨cp, hcp, hdiffers⟩ hnobody
    · cases garbage with
      | false => rfl
      | true =>
        cases hnotify.symm.trans hw'
        exact absurd hsame (List.cons_ne_self _ _)
  · rintro rfl
    refine ⟨w, hnotify, fun _ _ => rfl, .inr ⟨hnobody, ?_, rfl⟩⟩
    rw [hinfo]
    rfl

theorem reportsExactly_of_some (garbage : Bool) (hinfo : w.friends f.code = some info) {desc : Bytes}
    {cp : IOEXCP} (h : userinfoIn flatcc desc = some cp) :
    w.ReportsExactly flatcc garbage f desc info.val ↔ DescFits cp := by
  constructor
  · rintro ⟨w', hw', -⟩
    by_contra hnot
    cases (notify_of_not_fits garbage hinfo h hnot).symm.trans hw'
  · intro hfits
    obtain ⟨hheld, hnotify⟩ := notify_of_fits garbage hinfo h hfits
    refine ⟨_, hnotify, fun f' hf' => Function.update_of_ne hf' .., ?_⟩
    dsimp only
    rw [Function.update_self, Option.map_some]
    by_cases hdiffers : Differs cp info.val
    · left
      refine ⟨cp, h, hdiffers, rfl, ?_⟩
      rw [if_pos ((didChanged_iff _ _).mpr hdiffers)]
    · right
      refine ⟨?_, ?_, ?_⟩
      · rintro ⟨cp', hcp', hdiffers'⟩
        cases h.symm.trans hcp'
        exact hdiffers hdiffers'
      · exact congrArg some (describedBy_eq_self hdiffers)
      · rw [if_neg (mt (didChanged_iff _ _).mp hdiffers)]

/-- A description that is not empty has to be a user info whose strings fit, or the variable has to
hold zero by chance. -/
theorem notifyFriendDescriptionCb_reports_iff (garbage : Bool) (hinfo : w.friends f.code = some info)
    (desc : Bytes) :
    w.ReportsExactly flatcc garbage f desc info.val ↔
      desc = [] ∨ (∃ cp ∈ userinfoIn flatcc desc, DescFits cp) ∨
        (userinfoIn flatcc desc = none ∧ garbage = false) := by
  by_cases hempty : desc = []
  · subst hempty
    exact iff_of_true (reportsExactly_nil garbage hinfo) (.inl rfl)
  · rw [or_iff_right hempty]
    cases h : userinfoIn flatcc desc with
    | none => simp [reportsExactly_of_none garbage hinfo hempty h]
    | some cp => simp [reportsExactly_of_some garbage hinfo h]

end

/-- The contacts that the friends are part of. -/
def toContacts (w : FriendInfos) : Contacts :=
  { Contacts.init with friends := fun c => (w.friends c).map Subtype.val }

theorem toContacts_update (w : FriendInfos) (reported : List (ℕ × UserInfo)) (f : FriendCode)
    (info : StoredInfo) :
    (toContacts ⟨Function.update w.friends f (some info), reported⟩).friends =
      Function.update w.toContacts.friends f (some info.val) := by
  funext f'
  unfold toContacts
  dsimp only
  rw [Function.update_apply, Function.update_apply]
  split_ifs
  · rfl
  · rfl

/-- As long as no copy overflows, the friends are those of the contacts. -/
theorem notifyFriendDescriptionCb_friends {flatcc : BufferLibrary} {garbage : Bool}
    {w w' : FriendInfos} {f : FriendArg} {desc : Bytes} (hne : desc ≠ [])
    (h : w.notifyFriendDescriptionCb flatcc garbage f desc = some w') :
    (w.toContacts.notifyFriendDescriptionCb f (some (ioexcpDecode flatcc desc))).friends =
      w'.toContacts.friends := by
  cases hinfo : w.friends f.code with
  | none =>
    have hcontact : w.toContacts.friends f.code = none := congrArg (Option.map _) hinfo
    unfold notifyFriendDescriptionCb at h
    rw [hinfo] at h
    cases h
    unfold Contacts.notifyFriendDescriptionCb
    rw [hcontact]
  | some info =>
    have hcontact : w.toContacts.friends f.code = some info.val := congrArg (Option.map _) hinfo
    unfold Contacts.notifyFriendDescriptionCb
    simp only [hcontact]
    cases huser : userinfoIn flatcc desc with
    | none =>
      rw [unpackUserDesc_eq_none hne huser info.val]
      rw [notify_of_none garbage hinfo hne huser] at h
      cases h
      cases garbage <;> rfl
    | some cp =>
      obtain ⟨-, hdecode, htype⟩ := userinfoIn_eq_some huser
      by_cases hfits : DescFits cp
      · obtain ⟨hheld, hnotify⟩ := notify_of_fits garbage hinfo huser hfits
        cases hnotify.symm.trans h
        rw [toContacts_update, hdecode]
        cases hunpack : unpackUserDesc (some cp) info.val with
        | none => exact absurd htype (unpackUserDesc_type.mp hunpack)
        | some result =>
          obtain ⟨ui, copies⟩ := result
          rw [eq_describedBy hunpack]
          rfl
      · cases (notify_of_not_fits garbage hinfo huser hfits).symm.trans h

def blankInfo : StoredInfo := ⟨.ofId [], .ofId (Nat.zero_le _)⟩

def newFriend : FriendInfos := ⟨Function.update (fun _ => none) (FriendArg.code 0) (some blankInfo), []⟩

def messageData : Bytes :=
  plainLibrary.finalize ⟨Table.empty.add packetType (.uint8 typeMessage),
    some (anybodyFriendmsg, Table.empty.add friendmsgMsg (.vector [104]))⟩

/-- The callback is called for it if `changed` is not zero. -/
theorem messageData_reported :
    ¬newFriend.ReportsExactly plainLibrary true 0 messageData blankInfo.val := by
  rintro ⟨w', hw', -, hreported⟩
  have hcall : (newFriend.notifyFriendDescriptionCb plainLibrary true 0 messageData).map reported =
      some [(0, blankInfo.val)] := rfl
  rw [hw', Option.map_some, Option.some_inj] at hcall
  obtain ⟨cp, hcp, -⟩ | ⟨-, -, hsame⟩ := hreported
  · cases hcp
  · cases hsame.symm.trans hcall

def namedData : Bytes :=
  plainLibrary.finalize ⟨Table.empty.add packetType (.uint8 typeUserinfo),
    some (anybodyUserinfo, Table.empty.add userinfoName (.string [97]))⟩

theorem namedData_reported :
    newFriend.ReportsExactly plainLibrary true 0 namedData blankInfo.val := by
  have hinfo : newFriend.friends (FriendArg.code 0) = some blankInfo := rfl
  apply (notifyFriendDescriptionCb_reports_iff true hinfo namedData).mpr
  right
  left
  refine ⟨⟨none, .info ⟨false, some [97], none, none, none, none, none⟩⟩, rfl, ?_⟩
  constructor <;> decide

end FriendInfos

end Carrier.Core
