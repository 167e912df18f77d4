import Carrier.Lib.Tables

/-! The messages of `carrier/IOEXcp.c` and their schema `carrier/IOEXcp.fbs`. A failed assertion or a
string that is `NULL` where it is read makes a function `none`; allocations succeed. -/
namespace Carrier.Core
open Carrier.Lib

def typeUserinfo : UInt8 := 3
def typeFriendRequest : UInt8 := 6
def typeMessage : UInt8 := 33
def typeInviteRequest : UInt8 := 34
def typeInviteResponse : UInt8 := 35

structure IOEXCPUserInfo where
  hasAvatar : Bool
  name : Option Bytes
  descr : Option Bytes
  phone : Option Bytes
  gender : Option Bytes
  email : Option Bytes
  region : Option Bytes
  deriving DecidableEq

structure IOEXCPFriendReq where
  name : Option Bytes
  descr : Option Bytes
  hello : Option Bytes
  deriving DecidableEq

structure IOEXCPFriendMsg where
  len : ℕ
  msg : Option Bytes
  deriving DecidableEq

structure IOEXCPInviteReq where
  tid : BitVec 64
  len : ℕ
  data : Option Bytes
  deriving DecidableEq

structure IOEXCPInviteRsp where
  tid : BitVec 64
  status : BitVec 32
  reason : Option Bytes
  len : ℕ
  data : Option Bytes
  deriving DecidableEq

/-- `IOEXcp_packet_t`, by the type in the header -/
inductive Packet where
  | info (p : IOEXCPUserInfo)
  | freq (p : IOEXCPFriendReq)
  | fmsg (p : IOEXCPFriendMsg)
  | ireq (p : IOEXCPInviteReq)
  | irsp (p : IOEXCPInviteRsp)
  deriving DecidableEq

structure IOEXCP where
  ext : Option Bytes
  pkt : Packet
  deriving DecidableEq

def ioexcpCreate (type : UInt8) (ext : Option Bytes) : Option IOEXCP :=
  if type = typeUserinfo then some ⟨ext, .info ⟨false, none, none, none, none, none, none⟩⟩
  else if type = typeFriendRequest then some ⟨ext, .freq ⟨none, none, none⟩⟩
  else if type = typeMessage then some ⟨ext, .fmsg ⟨0, none⟩⟩
  else if type = typeInviteRequest then some ⟨ext, .ireq ⟨0, 0, none⟩⟩
  else if type = typeInviteResponse then some ⟨ext, .irsp ⟨0, 0, none, 0, none⟩⟩
  else none

namespace IOEXCP

def getType (cp : IOEXCP) : UInt8 :=
  match cp.pkt with
  | .info _ => typeUserinfo
  | .freq _ => typeFriendRequest
  | .fmsg _ => typeMessage
  | .ireq _ => typeInviteRequest
  | .irsp _ => typeInviteResponse

def getExtension (cp : IOEXCP) : Option Bytes := cp.ext

def getName (cp : IOEXCP) : Option (Option Bytes) :=
  match cp.pkt with
  | .info p => some p.name
  | .freq p => some p.name
  | _ => none

def getDescr (cp : IOEXCP) : Option (Option Bytes) :=
  match cp.pkt with
  | .info p => some p.descr
  | .freq p => some p.descr
  | _ => none

/-- The getters of a user info only. -/
def ofInfo {α : Type*} (cp : IOEXCP) (get : IOEXCPUserInfo → α) : Option α :=
  match cp.pkt with
  | .info p => some (get p)
  | _ => none

def getGender (cp : IOEXCP) : Option (Option Bytes) := cp.ofInfo IOEXCPUserInfo.gender
def getPhone (cp : IOEXCP) : Option (Option Bytes) := cp.ofInfo IOEXCPUserInfo.phone
def getEmail (cp : IOEXCP) : Option (Option Bytes) := cp.ofInfo IOEXCPUserInfo.email
def getRegion (cp : IOEXCP) : Option (Option Bytes) := cp.ofInfo IOEXCPUserInfo.region
def getHasAvatar (cp : IOEXCP) : Option Bool := cp.ofInfo IOEXCPUserInfo.hasAvatar

def getHello (cp : IOEXCP) : Option (Option Bytes) :=
  match cp.pkt with
  | .freq p => some p.hello
  | _ => none

def getTid (cp : IOEXCP) : Option (BitVec 64) :=
  match cp.pkt with
  | .ireq p => some p.tid
  | .irsp p => some p.tid
  | _ => none

def getStatus (cp : IOEXCP) : Option (BitVec 32) :=
  match cp.pkt with
  | .irsp p => some p.status
  | _ => none

def getRawData (cp : IOEXCP) : Option (Option Bytes) :=
  match cp.pkt with
  | .fmsg p => some p.msg
  | .ireq p => some p.data
  | .irsp p => some p.data
  | _ => none

def getRawDataLength (cp : IOEXCP) : Option ℕ :=
  match cp.pkt with
  | .fmsg p => some p.len
  | .ireq p => some p.len
  | .irsp p => some p.len
  | _ => none

def getReason (cp : IOEXCP) : Option (Option Bytes) :=
  match cp.pkt with
  | .irsp p => some p.reason
  | _ => none

def setName (cp : IOEXCP) (name : Bytes) : Option IOEXCP :=
  match cp.pkt with
  | .info p => some { cp with pkt := .info { p with name := some name } }
  | .freq p => some { cp with pkt := .freq { p with name := some name } }
  | _ => none

def setDescr (cp : IOEXCP) (descr : Bytes) : Option IOEXCP :=
  match cp.pkt with
  | .info p => some { cp with pkt := .info { p with descr := some descr } }
  | .freq p => some { cp with pkt := .freq { p with descr := some descr } }
  | _ => none

/-- The setters of a user info only. -/
def setInfo (cp : IOEXCP) (set : IOEXCPUserInfo → IOEXCPUserInfo) : Option IOEXCP :=
  match cp.pkt with
  | .info p => some { cp with pkt := .info (set p) }
  | _ => none

def setGender (cp : IOEXCP) (gender : Bytes) : Option IOEXCP :=
  cp.setInfo ({ · with gender := some gender })

def setPhone (cp : IOEXCP) (phone : Bytes) : Option IOEXCP :=
  cp.setInfo ({ · with phone := some phone })

def setEmail (cp : IOEXCP) (email : Bytes) : Option IOEXCP :=
  cp.setInfo ({ · with email := some email })

def setRegion (cp : IOEXCP) (region : Bytes) : Option IOEXCP :=
  cp.setInfo ({ · with region := some region })

def setHasAvatar (cp : IOEXCP) (hasAvatar : ℤ) : Option IOEXCP :=
  cp.setInfo ({ · with hasAvatar := hasAvatar ≠ 0 })

def setHello (cp : IOEXCP) (hello : Bytes) : Option IOEXCP :=
  match cp.pkt with
  | .freq p => some { cp with pkt := .freq { p with hello := some hello } }
  | _ => none

def setTid (cp : IOEXCP) (tid : BitVec 64) : Option IOEXCP :=
  match cp.pkt with
  | .ireq p => some { cp with pkt := .ireq { p with tid := tid } }
  | .irsp p => some { cp with pkt := .irsp { p with tid := tid } }
  | _ => none

def setStatus (cp : IOEXCP) (status : BitVec 32) : Option IOEXCP :=
  match cp.pkt with
  | .irsp p => some { cp with pkt := .irsp { p with status := status } }
  | _ => none

/-- `IOEXcp_set_raw_data` of all the bytes of `data` -/
def setRawData (cp : IOEXCP) (data : Bytes) : Option IOEXCP :=
  if data = [] then none
  else
    match cp.pkt with
    | .fmsg _ => some { cp with pkt := .fmsg ⟨data.length, some data⟩ }
    | .ireq p => some { cp with pkt := .ireq { p with data := some data, len := data.length } }
    | .irsp p => some { cp with pkt := .irsp { p with data := some data, len := data.length } }
    | _ => none

def setReason (cp : IOEXCP) (reason : Bytes) : Option IOEXCP :=
  match cp.pkt with
  | .irsp p => some { cp with pkt := .irsp { p with reason := some reason } }
  | _ => none

end IOEXCP

namespace Schema

/-! The positions of the fields in their tables, and of the tables in the union. -/

def userinfoAvatar : ℕ := 0
def userinfoName : ℕ := 1
def userinfoDescr : ℕ := 2
def userinfoPhone : ℕ := 3
def userinfoGender : ℕ := 4
def userinfoEmail : ℕ := 5
def userinfoRegion : ℕ := 6

def friendreqName : ℕ := 0
def friendreqDescr : ℕ := 1
def friendreqHello : ℕ := 2

def friendmsgExt : ℕ := 0
def friendmsgMsg : ℕ := 1

def invitereqExt : ℕ := 0
def invitereqTid : ℕ := 1
def invitereqData : ℕ := 2

def inviterspExt : ℕ := 0
def inviterspTid : ℕ := 1
def inviterspStatus : ℕ := 2
def inviterspReason : ℕ := 3
def inviterspData : ℕ := 4

def packetType : ℕ := 0

def anybodyUserinfo : ℕ := 1
def anybodyFriendreq : ℕ := 2
def anybodyFriendmsg : ℕ := 3
def anybodyInvitereq : ℕ := 4
def anybodyInvitersp : ℕ := 5

end Schema

open Schema

/-- `flatcc_builder_create_string_str` -/
def createString (s : Option Bytes) : Option Slot := s.map .string

/-- `flatbuffers_uint8_vec_create` -/
def createVec (data : Option Bytes) (len : ℕ) : Option Slot :=
  match data with
  | some data => some (.vector (data.take len))
  | none => if len = 0 then some (.vector []) else none

/-- `IOEXcp_friendmsg_ext_add` of an extension that is there, to whichever table is being built. -/
def extAdd (t : Table) : Option Bytes → Table
  | some ext => t.add friendmsgExt (.string ext)
  | none => t

def userinfoTable (p : IOEXCPUserInfo) : Option Table := do
  let t := match p.name with
    | some name => Table.empty.add userinfoName (.string name)
    | none => Table.empty
  let t := t.add userinfoDescr (← createString p.descr)
  let t := t.add userinfoGender (← createString p.gender)
  let t := t.add userinfoPhone (← createString p.phone)
  let t := t.add userinfoEmail (← createString p.email)
  let t := t.add userinfoRegion (← createString p.region)
  return t.addScalar userinfoAvatar .bool false p.hasAvatar

def friendreqTable (p : IOEXCPFriendReq) : Option Table := do
  let t := Table.empty.add friendreqName (← createString p.name)
  let t := t.add friendreqDescr (← createString p.descr)
  return t.add friendreqHello (← createString p.hello)

def friendmsgTable (ext : Option Bytes) (p : IOEXCPFriendMsg) : Option Table := do
  let t := extAdd Table.empty ext
  return t.add friendmsgMsg (← createVec p.msg p.len)

def invitereqTable (ext : Option Bytes) (p : IOEXCPInviteReq) : Option Table := do
  let t := extAdd Table.empty ext
  let t := t.addScalar invitereqTid .long 0 p.tid
  return t.add invitereqData (← createVec p.data p.len)

/-- The fields that every answer has. -/
def inviterspHead (ext : Option Bytes) (tid : BitVec 64) (status : BitVec 32) : Table :=
  let t := extAdd Table.empty ext
  let t := t.addScalar inviterspTid .long 0 tid
  t.addScalar inviterspStatus .int 0 status

def inviterspTable (ext : Option Bytes) (p : IOEXCPInviteRsp) : Option Table := do
  let t := inviterspHead ext p.tid p.status
  if p.status ≠ 0 then return t.add inviterspReason (← createString p.reason)
  else return t.add inviterspData (← createVec p.data p.len)

/-- The table of the body with its place in the union. -/
def bodyOf (cp : IOEXCP) : Option (ℕ × Table) :=
  match cp.pkt with
  | .info p => (userinfoTable p).map (anybodyUserinfo, ·)
  | .freq p => (friendreqTable p).map (anybodyFriendreq, ·)
  | .fmsg p => (friendmsgTable cp.ext p).map (anybodyFriendmsg, ·)
  | .ireq p => (invitereqTable cp.ext p).map (anybodyInvitereq, ·)
  | .irsp p => (inviterspTable cp.ext p).map (anybodyInvitersp, ·)

/-- The packet that `IOEXcp_encode` has built when it finalizes the buffer. -/
def rootOf (cp : IOEXCP) : Option Root := do
  let body ← bodyOf cp
  return ⟨Table.empty.addScalar packetType .uint8 0 cp.getType, some body⟩

def ioexcpEncode (flatcc : BufferLibrary) (cp : IOEXCP) : Option Bytes :=
  (rootOf cp).map flatcc.finalize

/-- The pointer and `flatbuffers_uint8_vec_len` of a vector. -/
def vecLen (vec : Option Bytes) : ℕ := (vec.map List.length).getD 0

def extOf (t : Table) (pos : ℕ) : Option Bytes :=
  if t.isPresent pos then t.field pos Slot.asString else none

def userinfoOf (tbl : Table) (p : IOEXCPUserInfo) : IOEXCPUserInfo where
  name := if tbl.isPresent userinfoName then tbl.field userinfoName Slot.asString else p.name
  descr := tbl.field userinfoDescr Slot.asString
  gender := tbl.field userinfoGender Slot.asString
  phone := tbl.field userinfoPhone Slot.asString
  email := tbl.field userinfoEmail Slot.asString
  region := tbl.field userinfoRegion Slot.asString
  hasAvatar := tbl.scalar userinfoAvatar Slot.asBool false

def friendreqOf (tbl : Table) : IOEXCPFriendReq where
  name := tbl.field friendreqName Slot.asString
  descr := tbl.field friendreqDescr Slot.asString
  hello := tbl.field friendreqHello Slot.asString

def friendmsgOf (tbl : Table) : IOEXCPFriendMsg :=
  let vec := tbl.field friendmsgMsg Slot.asVector
  ⟨vecLen vec, vec⟩

def invitereqOf (tbl : Table) : IOEXCPInviteReq :=
  let vec := tbl.field invitereqData Slot.asVector
  ⟨tbl.scalar invitereqTid Slot.asLong 0, vecLen vec, vec⟩

def inviterspOf (tbl : Table) (p : IOEXCPInviteRsp) : IOEXCPInviteRsp :=
  let p := { p with
    tid := tbl.scalar inviterspTid Slot.asLong 0
    status := tbl.scalar inviterspStatus Slot.asInt 0 }
  let vec := tbl.field inviterspData Slot.asVector
  if p.status ≠ 0 then { p with reason := tbl.field inviterspReason Slot.asString }
  else { p with data := vec, len := vecLen vec }

/-- The table of the body, read as the type of the new packet says. -/
def readBody (tbl : Table) (cp : IOEXCP) : IOEXCP :=
  match cp.pkt with
  | .info p => { cp with pkt := .info (userinfoOf tbl p) }
  | .freq _ => { cp with pkt := .freq (friendreqOf tbl) }
  | .fmsg _ => ⟨extOf tbl friendmsgExt, .fmsg (friendmsgOf tbl)⟩
  | .ireq _ => ⟨extOf tbl invitereqExt, .ireq (invitereqOf tbl)⟩
  | .irsp p => ⟨extOf tbl inviterspExt, .irsp (inviterspOf tbl p)⟩

/-- The part of `IOEXcp_decode` behind the root table. The place of the body in the union is not
looked at. -/
def decodeRoot (packet : Root) : Option IOEXCP := do
  let cp ← ioexcpCreate (packet.table.scalar packetType Slot.asUInt8 0) none
  let (_, tbl) ← packet.union
  return readBody tbl cp

def ioexcpDecode (flatcc : BufferLibrary) (data : Bytes) : Option IOEXCP :=
  (flatcc.asRoot data).bind decodeRoot

/-- What the callers of `IOEXcp_create` and the setters put into a packet. -/
inductive Message where
  | userinfo (hasAvatar : ℤ) (name descr gender phone email region : Bytes)
  | friendRequest (name descr hello : Bytes)
  | message (ext : Option Bytes) (msg : Bytes)
  | inviteRequest (ext : Option Bytes) (tid : BitVec 64) (data : Bytes)
  | inviteResponse (ext : Option Bytes) (tid : BitVec 64) (status : BitVec 32) (reason data : Bytes)
  deriving DecidableEq

/-- The calls of `fill_empty_user_desc`, `IOEX_set_self_info`, `IOEX_add_friend`,
`IOEX_send_friend_message`, `IOEX_invite_friend` and `IOEX_reply_friend_invite`. -/
def Message.build : Message → Option IOEXCP
  | .userinfo hasAvatar name descr gender phone email region => do
    let cp ← ioexcpCreate typeUserinfo none
    let cp ← cp.setHasAvatar hasAvatar
    let cp ← cp.setName name
    let cp ← cp.setDescr descr
    let cp ← cp.setGender gender
    let cp ← cp.setPhone phone
    let cp ← cp.setEmail email
    cp.setRegion region
  | .friendRequest name descr hello => do
    let cp ← ioexcpCreate typeFriendRequest none
    let cp ← cp.setName name
    let cp ← cp.setDescr descr
    cp.setHello hello
  | .message ext msg => do
    let cp ← ioexcpCreate typeMessage ext
    cp.setRawData msg
  | .inviteRequest ext tid data => do
    let cp ← ioexcpCreate typeInviteRequest ext
    let cp ← cp.setTid tid
    cp.setRawData data
  | .inviteResponse ext tid status reason data => do
    let cp ← ioexcpCreate typeInviteResponse ext
    let cp ← cp.setTid tid
    let cp ← cp.setStatus status
    if status ≠ 0 then cp.setReason reason else cp.setRawData data

/-- Two packets that no getter tells apart. -/
structure SameGetters (cp cp' : IOEXCP) : Prop where
  type : cp.getType = cp'.getType
  extension : cp.getExtension = cp'.getExtension
  name : cp.getName = cp'.getName
  descr : cp.getDescr = cp'.getDescr
  gender : cp.getGender = cp'.getGender
  phone : cp.getPhone = cp'.getPhone
  email : cp.getEmail = cp'.getEmail
  region : cp.getRegion = cp'.getRegion
  hasAvatar : cp.getHasAvatar = cp'.getHasAvatar
  hello : cp.getHello = cp'.getHello
  tid : cp.getTid = cp'.getTid
  status : cp.getStatus = cp'.getStatus
  rawData : cp.getRawData = cp'.getRawData
  rawDataLength : cp.getRawDataLength = cp'.getRawDataLength
  reason : cp.getReason = cp'.getReason

theorem SameGetters.refl (cp : IOEXCP) : SameGetters cp cp :=
  ⟨rfl, rfl, rfl, rfl, rfl, rfl, rfl, rfl, rfl, rfl, rfl, rfl, rfl, rfl, rfl⟩

/-- A packet in which everything is set that its type needs, and nothing else. -/
inductive Complete : IOEXCP → Prop where
  | info (hasAvatar : Bool) (name descr phone gender email region : Bytes) :
      Complete ⟨none, .info ⟨hasAvatar, some name, some descr, some phone, some gender, some email,
        some region⟩⟩
  | freq (name descr hello : Bytes) : Complete ⟨none, .freq ⟨some name, some descr, some hello⟩⟩
  | fmsg (ext : Option Bytes) (msg : Bytes) : Complete ⟨ext, .fmsg ⟨msg.length, some msg⟩⟩
  | ireq (ext : Option Bytes) (tid : BitVec 64) (data : Bytes) :
      Complete ⟨ext, .ireq ⟨tid, data.length, some data⟩⟩
  | refusal (ext : Option Bytes) (tid : BitVec 64) {status : BitVec 32} (reason : Bytes)
      (h : status ≠ 0) : Complete ⟨ext, .irsp ⟨tid, status, some reason, 0, none⟩⟩
  | confirmation (ext : Option Bytes) (tid : BitVec 64) (data : Bytes) :
      Complete ⟨ext, .irsp ⟨tid, 0, none, data.length, some data⟩⟩

theorem build_complete {m : Message} {cp : IOEXCP} (h : m.build = some cp) : Complete cp := by
  cases m with
  | userinfo hasAvatar name descr gender phone email region =>
    cases h
    exact .info _ name descr phone gender email region
  | friendRequest name descr hello =>
    cases h
    exact .freq name descr hello
  | message ext msg =>
    have hcreate : ioexcpCreate typeMessage ext = some ⟨ext, .fmsg ⟨0, none⟩⟩ := rfl
    simp only [Message.build, hcreate, Option.bind_eq_bind, Option.bind_some,
      IOEXCP.setRawData] at h
    split_ifs at h
    cases h
    exact .fmsg ext msg
  | inviteRequest ext tid data =>
    have hcreate : ioexcpCreate typeInviteRequest ext = some ⟨ext, .ireq ⟨0, 0, none⟩⟩ := rfl
    simp only [Message.build, hcreate, Option.bind_eq_bind, Option.bind_some, IOEXCP.setTid,
      IOEXCP.setRawData] at h
    split_ifs at h
    cases h
    exact .ireq ext tid data
  | inviteResponse ext tid status reason data =>
    have hcreate : ioexcpCreate typeInviteResponse ext = some ⟨ext, .irsp ⟨0, 0, none, 0, none⟩⟩ :=
      rfl
    simp only [Message.build, hcreate, Option.bind_eq_bind, Option.bind_some, IOEXCP.setTid,
      IOEXCP.setStatus, IOEXCP.setReason, IOEXCP.setRawData] at h
    split_ifs at h with hstatus
    · cases h
      exact .refusal ext tid reason hstatus
    · cases h
      rw [not_not] at hstatus
      subst hstatus
      exact .confirmation ext tid data

theorem userinfoOf_userinfoTable (hasAvatar : Bool) (name descr phone gender email region : Bytes)
    (p : IOEXCPUserInfo) : ∃ t, userinfoTable ⟨hasAvatar, some name, some descr, some phone,
      some gender, some email, some region⟩ = some t ∧ userinfoOf t p = ⟨hasAvatar, some name,
        some descr, some phone, some gender, some email, some region⟩ := by
  refine ⟨_, rfl, ?_⟩
  rw [userinfoOf, Table.scalar_addScalar Slot.bool Slot.asBool (fun _ => rfl) rfl]
  simp [Table.isPresent, Table.field, Slot.asString, userinfoAvatar, userinfoName, userinfoDescr,
    userinfoPhone, userinfoGender, userinfoEmail, userinfoRegion]

theorem friendreqOf_friendreqTable (name descr hello : Bytes) : ∃ t,
    friendreqTable ⟨some name, some descr, some hello⟩ = some t ∧
      friendreqOf t = ⟨some name, some descr, some hello⟩ :=
  ⟨_, rfl, rfl⟩

/-- The extension is read at the position it has been written to by the accessor of a message. -/
theorem extOf_extAdd {t : Table} {ext : Option Bytes}
    (h : t friendmsgExt = extAdd Table.empty ext friendmsgExt) : extOf t friendmsgExt = ext := by
  unfold extOf Table.isPresent Table.field
  rw [h]
  cases ext <;> rfl

theorem createVec_length (data : Bytes) :
    createVec (some data) data.length = some (.vector data) := by
  rw [createVec, List.take_length]

theorem friendmsg_table (ext : Option Bytes) (msg : Bytes) : ∃ t,
    friendmsgTable ext ⟨msg.length, some msg⟩ = some t ∧ extOf t friendmsgExt = ext ∧
      friendmsgOf t = ⟨msg.length, some msg⟩ := by
  unfold friendmsgTable
  rw [createVec_length]
  refine ⟨_, rfl, extOf_extAdd ?_, rfl⟩
  exact Table.add_ne (by decide) _ _

theorem extAdd_ne {pos : ℕ} (h : pos ≠ friendmsgExt) (ext : Option Bytes) :
    extAdd Table.empty ext pos = none := by
  cases ext with
  | none => rfl
  | some ext => exact Table.add_ne h _ _

theorem invitereq_table (ext : Option Bytes) (tid : BitVec 64) (data : Bytes) : ∃ t,
    invitereqTable ext ⟨tid, data.length, some data⟩ = some t ∧ extOf t invitereqExt = ext ∧
      invitereqOf t = ⟨tid, data.length, some data⟩ := by
  unfold invitereqTable
  rw [createVec_length]
  refine ⟨_, rfl, extOf_extAdd ?_, ?_⟩
  · rw [Table.add_ne (by decide), Table.addScalar_ne (by decide)]
  · rw [invitereqOf, Table.scalar_add_ne (by decide),
      Table.scalar_addScalar Slot.long Slot.asLong (fun _ => rfl) (extAdd_ne (by decide) ext)]
    rfl

/-- The common fields of an answer are read back however it goes on. -/
theorem inviterspHead_add (ext : Option Bytes) (tid : BitVec 64) (status : BitVec 32) {pos : ℕ}
    (hpos : inviterspStatus < pos) (s : Slot) :
    let t := (inviterspHead ext tid status).add pos s
    extOf t inviterspExt = ext ∧ t.scalar inviterspTid Slot.asLong 0 = tid ∧
      t.scalar inviterspStatus Slot.asInt 0 = status := by
  have hext : inviterspExt ≠ pos := Nat.ne_of_lt ((by decide : inviterspExt < 2).trans hpos)
  have htid : inviterspTid ≠ pos := Nat.ne_of_lt ((by decide : inviterspTid < 2).trans hpos)
  dsimp only [inviterspHead]
  refine ⟨extOf_extAdd ?_, ?_, ?_⟩
  · have hadd := Table.add_ne hext
    rw [inviterspExt] at hadd
    rw [friendmsgExt, hadd, Table.addScalar_ne (by decide), Table.addScalar_ne (by decide)]
  · rw [Table.scalar_add_ne htid, Table.scalar_addScalar_ne (by decide),
      Table.scalar_addScalar Slot.long Slot.asLong (fun _ => rfl) (extAdd_ne (by decide) ext)]
  · rw [Table.scalar_add_ne hpos.ne,
      Table.scalar_addScalar Slot.int Slot.asInt (fun _ => rfl)]
    rw [Table.addScalar_ne (by decide), extAdd_ne (by decide)]

theorem refusal_table (ext : Option Bytes) (tid : BitVec 64) {status : BitVec 32} (reason : Bytes)
    (h : status ≠ 0) : ∃ t, inviterspTable ext ⟨tid, status, some reason, 0, none⟩ = some t ∧
      extOf t inviterspExt = ext ∧
      inviterspOf t ⟨0, 0, none, 0, none⟩ = ⟨tid, status, some reason, 0, none⟩ := by
  obtain ⟨hext, htid, hstatus⟩ :=
    inviterspHead_add ext tid status (by decide : inviterspStatus < inviterspReason) (.string reason)
  refine ⟨_, if_pos h, hext, ?_⟩
  simp only [inviterspOf, htid, hstatus, if_pos h]
  rfl

theorem confirmation_table (ext : Option Bytes) (tid : BitVec 64) (data : Bytes) :
    ∃ t, inviterspTable ext ⟨tid, 0, none, data.length, some data⟩ = some t ∧
      extOf t inviterspExt = ext ∧
      inviterspOf t ⟨0, 0, none, 0, none⟩ = ⟨tid, 0, none, data.length, some data⟩ := by
  obtain ⟨hext, htid, hstatus⟩ :=
    inviterspHead_add ext tid 0 (by decide : inviterspStatus < inviterspData) (.vector data)
  have hnot : ¬(0 : BitVec 32) ≠ 0 := fun h => h rfl
  refine ⟨_, ?_, hext, ?_⟩
  · simp only [inviterspTable, createVec_length, if_neg hnot]
    rfl
  · simp only [inviterspOf, htid, hstatus, if_neg hnot]
    rfl

theorem decodeRoot_of_body {cp blank : IOEXCP} {place : ℕ} {t : Table}
    (hblank : ioexcpCreate cp.getType none = some blank) (hbody : bodyOf cp = some (place, t))
    (hread : readBody t blank = cp) : ∃ root, rootOf cp = some root ∧ decodeRoot root = some cp := by
  refine ⟨⟨Table.empty.addScalar packetType .uint8 0 cp.getType, some (place, t)⟩, ?_, ?_⟩
  · rw [rootOf, hbody]
    rfl
  · rw [decodeRoot, Table.scalar_addScalar Slot.uint8 Slot.asUInt8 (fun _ => rfl) rfl, hblank]
    exact congrArg some hread

theorem decodeRoot_rootOf {cp : IOEXCP} (h : Complete cp) :
    ∃ root, rootOf cp = some root ∧ decodeRoot root = some cp := by
  cases h with
  | info hasAvatar name descr phone gender email region =>
    obtain ⟨t, ht, hp⟩ := userinfoOf_userinfoTable hasAvatar name descr phone gender email region
      ⟨false, none, none, none, none, none, none⟩
    have hbody : bodyOf ⟨none, .info ⟨hasAvatar, some name, some descr, some phone, some gender,
        some email, some region⟩⟩ = some (anybodyUserinfo, t) := congrArg (Option.map _) ht
    exact decodeRoot_of_body rfl hbody (congrArg (IOEXCP.mk none ∘ Packet.info) hp)
  | freq name descr hello =>
    obtain ⟨t, ht, hp⟩ := friendreqOf_friendreqTable name descr hello
    have hbody : bodyOf ⟨none, .freq ⟨some name, some descr, some hello⟩⟩ =
        some (anybodyFriendreq, t) := congrArg (Option.map _) ht
    exact decodeRoot_of_body rfl hbody (congrArg (IOEXCP.mk none ∘ Packet.freq) hp)
  | fmsg ext msg =>
    obtain ⟨t, ht, hext, hp⟩ := friendmsg_table ext msg
    have hbody : bodyOf ⟨ext, .fmsg ⟨msg.length, some msg⟩⟩ = some (anybodyFriendmsg, t) :=
      congrArg (Option.map _) ht
    exact decodeRoot_of_body rfl hbody (congrArg₂ IOEXCP.mk hext (congrArg Packet.fmsg hp))
  | ireq ext tid data =>
    obtain ⟨t, ht, hext, hp⟩ := invitereq_table ext tid data
    have hbody : bodyOf ⟨ext, .ireq ⟨tid, data.length, some data⟩⟩ = some (anybodyInvitereq, t) :=
      congrArg (Option.map _) ht
    exact decodeRoot_of_body rfl hbody (congrArg₂ IOEXCP.mk hext (congrArg Packet.ireq hp))
  | refusal ext tid reason h =>
    obtain ⟨t, ht, hext, hp⟩ := refusal_table ext tid reason h
    have hbody : bodyOf ⟨ext, .irsp ⟨tid, _, some reason, 0, none⟩⟩ = some (anybodyInvitersp, t) :=
      congrArg (Option.map _) ht
    exact decodeRoot_of_body rfl hbody (congrArg₂ IOEXCP.mk hext (congrArg Packet.irsp hp))
  | confirmation ext tid data =>
    obtain ⟨t, ht, hext, hp⟩ := confirmation_table ext tid data
    have hbody : bodyOf ⟨ext, .irsp ⟨tid, 0, none, data.length, some data⟩⟩ =
        some (anybodyInvitersp, t) := congrArg (Option.map _) ht
    exact decodeRoot_of_body rfl hbody (congrArg₂ IOEXCP.mk hext (congrArg Packet.irsp hp))

/-- Every packet that is built as the callers do comes back from its encoding, for all getters. -/
theorem ioexcpDecode_ioexcpEncode (flatcc : BufferLibrary) {m : Message} {cp : IOEXCP}
    (hbuild : m.build = some cp) (hflatcc : ∀ root, rootOf cp = some root → flatcc.ReadsBack root) :
    ∃ buf cp', ioexcpEncode flatcc cp = some buf ∧ ioexcpDecode flatcc buf = some cp' ∧
      SameGetters cp' cp := by
  obtain ⟨root, hroot, hdecode⟩ := decodeRoot_rootOf (build_complete hbuild)
  refine ⟨flatcc.finalize root, cp, ?_, ?_, .refl cp⟩
  · rw [ioexcpEncode, hroot]
    rfl
  · rw [ioexcpDecode, hflatcc root hroot]
    exact hdecode

/-! A library with a plain layout: a field is its position, its type, its length and its content. -/

def slotBytes : Slot → UInt8 × Bytes
  | .bool v => (0, [if v then 1 else 0])
  | .uint8 v => (1, [v])
  | .int v => (2, toLE 4 v.toNat)
  | .long v => (3, toLE 8 v.toNat)
  | .string s => (4, s)
  | .vector v => (5, v)

def slotOf : UInt8 → Bytes → Option Slot
  | 0, content => some (.bool (content = [1]))
  | 1, content => content.head?.map .uint8
  | 2, content => some (.int (BitVec.ofNat 32 (ofLE content)))
  | 3, content => some (.long (BitVec.ofNat 64 (ofLE content)))
  | 4, content => some (.string content)
  | 5, content => some (.vector content)
  | _, _ => none

def tableBytes (t : Table) : Bytes :=
  (List.range 7).flatMap (fun pos =>
    match (t pos).map slotBytes with
    | some (type, content) => [pos.toUInt8, type] ++ toLE 4 content.length ++ content
    | none => [])

def tableOf : ℕ → Bytes → Table
  | fuel + 1, pos :: type :: rest =>
    let len := ofLE (rest.take 4)
    let t := tableOf fuel (rest.drop (4 + len))
    match slotOf type ((rest.drop 4).take len) with
    | some s => t.add pos.toNat s
    | none => t
  | _, _ => Table.empty

def plainLibrary : BufferLibrary where
  finalize root :=
    let (place, body) := root.union.getD (0, Table.empty)
    let table := tableBytes root.table
    toLE 4 table.length ++ table ++ place.toUInt8 :: tableBytes body
  asRoot buf :=
    let len := ofLE (buf.take 4)
    match buf.drop (4 + len) with
    | [] => none
    | place :: body =>
      some ⟨tableOf len ((buf.drop 4).take len),
        if place = 0 then none else some (place.toNat, tableOf body.length body)⟩

/-- An invite for an extension. -/
theorem inviteRequest_roundTrip : ∃ cp buf cp',
    (Message.inviteRequest (some [115]) 7 [1, 2]).build = some cp ∧
      ioexcpEncode plainLibrary cp = some buf ∧ ioexcpDecode plainLibrary buf = some cp' ∧
      SameGetters cp' cp := by
  refine ⟨⟨some [115], .ireq ⟨7, 2, some [1, 2]⟩⟩, ?_⟩
  have hback : ∀ root, rootOf ⟨some [115], .ireq ⟨7, 2, some [1, 2]⟩⟩ = some root →
      plainLibrary.ReadsBack root := by
    intro root hroot
    cases hroot
    apply congrArg some
    rw [Root.mk.injEq]
    constructor
    · funext pos
      cases pos with
      | zero => rfl
      | succ pos => rfl
    · apply congrArg (fun t => some (anybodyInvitereq, t))
      funext pos
      obtain _ | _ | _ | pos := pos <;> rfl
  obtain ⟨buf, cp', h⟩ := ioexcpDecode_ioexcpEncode plainLibrary
    (m := .inviteRequest (some [115]) 7 [1, 2]) rfl hback
  exact ⟨buf, cp', rfl, h⟩

/-! The accessors of a body are generated from the schema, and read the fields by their positions
whatever table they are given. `none` is a read that is undefined. On a table of the type it is for such
a reader does what `readBody` does; on one of another type `readBody` has no say, as there a field that is
stored with another type would read as absent. -/

/-- The place in the union of the table of a type. -/
def anybodyOf (type : UInt8) : ℕ :=
  if type = typeUserinfo then anybodyUserinfo
  else if type = typeFriendRequest then anybodyFriendreq
  else if type = typeMessage then anybodyFriendmsg
  else if type = typeInviteRequest then anybodyInvitereq
  else anybodyInvitersp

def ioexcpTypes : List UInt8 :=
  [typeUserinfo, typeFriendRequest, typeMessage, typeInviteRequest, typeInviteResponse]

/-- The tag of the body names another table than that of the packet's type. -/
structure Mismatched (packet : Root) : Prop where
  known : packet.table.scalar packetType Slot.asUInt8 0 ∈ ioexcpTypes
  tagged : ∃ tag tbl, packet.union = some (tag, tbl) ∧ tag ∈ ioexcpTypes.map anybodyOf ∧
    tag ≠ anybodyOf (packet.table.scalar packetType Slot.asUInt8 0)

/-- What the accessors of the packet's type read in a table. -/
abbrev BodyReader := Table → IOEXCP → Option IOEXCP

/-- `decodeRoot`, however the body is read; the inner `none` is `NULL`. -/
def decodeRootBy (read : BodyReader) (packet : Root) : Option (Option IOEXCP) :=
  match ioexcpCreate (packet.table.scalar packetType Slot.asUInt8 0) none, packet.union with
  | none, _ => some none
  | some _, none => some none
  | some cp, some (_, tbl) => (read tbl cp).map some

/-- `IOEXcp_decode`, however the body is read -/
def ioexcpDecodeBy (flatcc : BufferLibrary) (read : BodyReader) (data : Bytes) :
    Option (Option IOEXCP) :=
  match flatcc.asRoot data with
  | none => some none
  | some packet => decodeRootBy read packet

theorem ioexcpDecodeBy_readBody (flatcc : BufferLibrary) (data : Bytes) :
    ioexcpDecodeBy flatcc (fun tbl cp => some (readBody tbl cp)) data =
      some (ioexcpDecode flatcc data) := by
  unfold ioexcpDecodeBy ioexcpDecode
  cases flatcc.asRoot data with
  | none => rfl
  | some packet =>
    dsimp only [Option.bind_some]
    rw [decodeRoot, decodeRootBy]
    cases ioexcpCreate (packet.table.scalar packetType Slot.asUInt8 0) none with
    | none => rfl
    | some cp =>
      cases packet.union with
      | none => rfl
      | some body => rfl

theorem ioexcpCreate_isSome {type : UInt8} (h : type ∈ ioexcpTypes) (ext : Option Bytes) :
    (ioexcpCreate type ext).isSome := by
  simp only [ioexcpTypes, List.mem_cons, List.not_mem_nil, or_false] at h
  obtain rfl | rfl | rfl | rfl | rfl := h <;> rfl

/-- The tag of the body is not compared with the type: no body of another table is refused. -/
theorem ioexcpDecodeBy_mismatched (flatcc : BufferLibrary) (read : BodyReader) {data : Bytes}
    {packet : Root} (hroot : flatcc.asRoot data = some packet) (hmismatch : Mismatched packet) :
    ioexcpDecodeBy flatcc read data ≠ some none := by
  obtain ⟨tag, tbl, hunion, -, -⟩ := hmismatch.tagged
  obtain ⟨cp, hcreate⟩ := Option.isSome_iff_exists.mp (ioexcpCreate_isSome hmismatch.known none)
  rw [ioexcpDecodeBy, hroot]
  dsimp only
  rw [decodeRootBy, hcreate, hunion]
  dsimp only
  cases read tbl cp with
  | none => nofun
  | some cp' => nofun

/-- A message whose body is a user info with a name. -/
def mismatchedData : Bytes :=
  plainLibrary.finalize ⟨Table.empty.add packetType (.uint8 typeMessage),
    some (anybodyUserinfo, Table.empty.add userinfoName (.string [97]))⟩

/-- A string is laid out as a vector of its bytes. -/
def stringAsVector : BodyReader := fun tbl cp =>
  match cp.pkt, tbl friendmsgMsg with
  | .fmsg _, some (.string s) => some ⟨none, .fmsg ⟨s.length, some s⟩⟩
  | _, _ => none

/-- The name is taken for the message. -/
theorem mismatchedData_accepted :
    (∃ packet, plainLibrary.asRoot mismatchedData = some packet ∧ Mismatched packet) ∧
      ioexcpDecodeBy plainLibrary stringAsVector mismatchedData =
        some (some ⟨none, .fmsg ⟨1, some [97]⟩⟩) := by
  constructor
  · exact ⟨_, rfl, by decide, _, _, rfl, by decide, by decide⟩
  · rfl

theorem mismatchedData_not_refused :
    ioexcpDecodeBy plainLibrary stringAsVector mismatchedData ≠ some none := by
  apply ioexcpDecodeBy_mismatched plainLibrary stringAsVector rfl
  exact ⟨by decide, _, _, rfl, by decide, by decide⟩

end Carrier.Core
