/-
SLDM.Client.Packets — `on_message` from the AMQP message to the decoded
CAM.

The handler decodes into a local record that nothing initialises, and
then acts on what the record says. `decodeEtsi` reports success for a
packet that the GeoNetworking or BTP layer rejects and leaves the record
alone, so the handler may go on with whatever the stack holds. What the
code finds there, and behind the end of the buffer, are the `Leftovers` of
a call; a null or wild pointer makes the outcome `undefined`.

The handler reads the heading of every CAM from the container of a vehicle.
For a roadside unit this is another member of the union, and when the unit
lists protected zones it is the pointer to the list: an address, which is
among the leftovers of the call.

`camOf` says what the bytes of a message stand for, up to that address. On a
`Clean` packet the handler makes out exactly that, whatever the other
leftovers (`readMessage_of_clean`); on a rejected one the leftovers decide
(`readMessage_of_rejected`).
-/
import SLDM.Client.OnMessage
import SLDM.Decoder.BufferBounds

namespace SLDM.Client

open ByteReader Reader Decoder

/-! ## Messages as they arrive -/

/-- The body of an AMQP message: binary data, or a value of another type. -/
inductive Body where
  | binary (data : List UInt8)
  | other
  deriving DecidableEq, Repr

/-- What a receiver is handed. -/
structure AmqpMessage where
  body : Body
  properties : List (String × Scalar)
  deriving DecidableEq, Repr

/-- What the generated decoder builds: a CAM, and whether the pointer
`protectedCommunicationZonesRSU` is set in it, which is then where the
handler looks for `headingValue`. The handler reads nothing of a DENM. -/
inductive Decoded where
  | cam (cam : Cam) (zones : Bool)
  | denm
  deriving DecidableEq, Repr

/-- The CAM as the handler reads it. -/
def Cam.asRead (cam : Cam) (zones : Bool) (zonesAddress : Int) : Cam :=
  if zones then { cam with headingValue := zonesAddress } else cam

/-- The generated decoder: for `asn_DEF_CAM` it builds a CAM, and what it
builds, addresses aside, comes from the slice it is given. -/
structure AsnModule where
  decode : AsnDecode Decoded
  builds : ∀ mem data lenght msg, decode .asnDefCAM mem data lenght = ⟨true, some msg⟩ →
    ∃ cam zones, msg = .cam cam zones
  reads : ∀ descriptor (mem mem' : Memory) data lenght,
    (∀ k < lenght, mem' (data + k) = mem (data + k)) →
      decode descriptor mem' data lenght = decode descriptor mem data lenght

/-- What a call of the handler finds in memory that is not its own: the
bytes behind the buffer, the contents of its uninitialised locals and the
address the list of zones is given. `decodedMsg` is what the pointer leads
to, if it leads anywhere. -/
structure Leftovers where
  behind : Memory
  locals : FrontendLocals
  type : EtsiDecodedType
  decodedMsg : Option Cam
  gnTimestamp : UInt32
  zonesAddress : Int

/-- The memory from the start of a buffer. -/
def bufferMemory (data : List UInt8) (behind : Memory) : Memory := fun i =>
  data.getD i (behind (i - data.length))

/-- `decodedData` as it is declared. -/
def uninitialised : EtsiDecodedData Decoded := ⟨none, none, none, none, none, none, none, none⟩

/-- How far `on_message` gets before the area filter. -/
inductive Reading where
  | ignored
  | cam (m : CamMessage)
  | undefined
  deriving DecidableEq, Repr

/-- The pointer `decoded_cam`: what was stored, or what was there. -/
def decodedCam (decodedData : EtsiDecodedData Decoded) (left : Leftovers) : Option Cam :=
  match decodedData.decodedMsg with
  | some (some (.cam cam zones)) => some (cam.asRead zones left.zonesAddress)
  | some _ => none
  | none => left.decodedMsg

/-- `on_message` up to the area filter. -/
def readMessage (asn : AsnModule) (left : Leftovers) (m : AmqpMessage) : Reading :=
  match m.body with
  | .other => .ignored
  | .binary data =>
    let (code, decodedData) :=
      (decodeEtsi asn.decode left.locals data.length .auto uninitialised).value
        (bufferMemory data left.behind)
    if code ≠ ETSI_DECODER_OK then .ignored
    else
      let type := decodedData.type.getD left.type
      if type = .cam ∨ type = .camNoGN then
        match decodedCam decodedData left with
        | some cam =>
          let gnTimestamp :=
            if type = .cam then some (decodedData.gnTimestamp.getD left.gnTimestamp) else none
          .cam ⟨gnTimestamp, cam, m.properties⟩
        | none => .undefined
      else .ignored

/-! ## What a packet stands for -/

/-- The timestamp of the source position vector. -/
def timestampOf (mem : Memory) : UInt32 :=
  ((GNlpv.read (if (commonOf mem).headerType = GBC then 16 else 12)).value mem).tst

/-- The destination port of the BTP header. -/
def portOf (mem : Memory) : UInt16 :=
  ((BtpHeader.removeHeader (btpOffset mem)).value mem).destinationPort

/-- A buffer of bytes, with nothing behind it. -/
def bytesOf (data : List UInt8) : Memory := bufferMemory data fun _ => 0

/-- The packet is taken for a full ITS message. -/
def TakenForIts (data : List UInt8) : Prop :=
  (isGeoNet data.length .auto).value (bytesOf data) = true

instance (data : List UInt8) : Decidable (TakenForIts data) :=
  inferInstanceAs (Decidable (_ = true))

/-- The CAM the generated decoder makes of a slice, as the handler reads
it. -/
def AsnModule.cam (asn : AsnModule) (zonesAddress : Int) (mem : Memory) (data lenght : ℕ) :
    Option Cam :=
  match asn.decode .asnDefCAM mem data lenght with
  | ⟨true, some (.cam cam zones)⟩ => some (cam.asRead zones zonesAddress)
  | _ => none

/-- The CAM of a message, read from its bytes alone, the address of the
zones of a roadside unit aside: the payload behind the headers, or the whole
packet when it is a bare CAM. -/
def camOf (asn : AsnModule) (zonesAddress : Int) (m : AmqpMessage) : Option CamMessage :=
  match m.body with
  | .other => none
  | .binary data =>
    let mem := bytesOf data
    if TakenForIts data then
      if portOf mem = CA_PORT then
        (asn.cam zonesAddress mem (payloadOffset mem) ((commonOf mem).payload.toNat - 4)).map
          fun cam => ⟨some (timestampOf mem), cam, m.properties⟩
      else none
    else if data[1]? = some CAM then
      (asn.cam zonesAddress mem 0 data.length).map fun cam => ⟨none, cam, m.properties⟩
    else none

/-- A packet that decides its own fate: it has not just one byte, and if it
is taken for a full ITS message, both layers accept it and the buffer
holds its headers and the payload it declares. -/
structure Clean (data : List UInt8) : Prop where
  notOne : data.length ≠ 1
  accepted : TakenForIts data → HeadersAccepted (bytesOf data)
  headers : GbcFits data.length (bytesOf data)
  payload : TakenForIts data → DeclaredFits data.length (bytesOf data)

/-- A packet that is taken for a full ITS message and rejected. -/
structure Rejected (data : List UInt8) (behind : Memory) : Prop where
  path : TakenForIts data
  headers : ¬ HeadersAccepted (bufferMemory data behind)

/-! ## Looking at a buffer -/

theorem bufferMemory_eq (data : List UInt8) (behind : Memory) {i : ℕ} (hi : i < data.length) :
    bufferMemory data behind i = bytesOf data i := by
  simp [bufferMemory, bytesOf, List.getD, List.getElem?_eq_getElem hi]

theorem bytesOf_eq_iff {data : List UInt8} {i : ℕ} (hi : i < data.length) {b : UInt8} :
    bytesOf data i = b ↔ data[i]? = some b := by
  simp [bytesOf, bufferMemory, List.getD, List.getElem?_eq_getElem hi]

theorem traced_memcpy16 (buffer : ℕ) : Traced (memcpy16 buffer) :=
  (traced_u8 _).bind fun _ => (traced_u8 _).bind fun _ => traced_pure _

theorem traced_memcpy32 (buffer : ℕ) : Traced (memcpy32 buffer) :=
  (traced_u8 _).bind fun _ => (traced_u8 _).bind fun _ => (traced_u8 _).bind fun _ =>
    (traced_u8 _).bind fun _ => traced_pure _

theorem traced_basicHeader (buffer : ℕ) : Traced (BasicHeader.removeHeader buffer) :=
  (traced_u8 _).bind fun _ => (traced_u8 _).bind fun _ => (traced_u8 _).bind fun _ =>
    (traced_u8 _).bind fun _ => traced_pure _

theorem traced_commonHeader (buffer : ℕ) : Traced (CommonHeader.removeHeader buffer) :=
  (traced_u8 _).bind fun _ => (traced_u8 _).bind fun _ => (traced_u8 _).bind fun _ =>
    (traced_u8 _).bind fun _ => (traced_memcpy16 _).bind fun _ => (traced_u8 _).bind fun _ =>
      (traced_u8 _).bind fun _ => traced_pure _

theorem traced_longPositionVector (buffer : ℕ) : Traced (GNlpv.read buffer) :=
  (traced_bytes _ _).bind fun _ => (traced_memcpy32 _).bind fun _ => (traced_memcpy32 _).bind
    fun _ => (traced_memcpy32 _).bind fun _ => (traced_memcpy16 _).bind fun _ =>
      (traced_memcpy16 _).bind fun _ => traced_pure _

theorem traced_btpHeader (buffer : ℕ) : Traced (BtpHeader.removeHeader buffer) :=
  (traced_memcpy16 _).bind fun _ => (traced_memcpy16 _).bind fun _ => traced_pure _

theorem traced_isGeoNet (buflen : ℕ) : Traced (isGeoNet buflen .auto) := by
  simp only [isGeoNet]
  split
  · exact traced_pure false
  · exact (traced_u8 1).bind fun _ => traced_pure _

section Buffer

variable {mem mem' : Memory} {n : ℕ}

/-- Two memories that start with the same packet. -/
structure SamePacket (n : ℕ) (mem mem' : Memory) : Prop where
  path : (isGeoNet n .auto).value mem' = (isGeoNet n .auto).value mem
  basic : 44 ≤ n → basicOf mem' = basicOf mem
  common : 44 ≤ n → commonOf mem' = commonOf mem
  timestamp : 44 ≤ n → timestampOf mem' = timestampOf mem
  port : btpOffset mem + 4 ≤ n → portOf mem' = portOf mem

theorem samePacket_of_agree (hagree : ∀ i < n, mem' i = mem i) : SamePacket n mem mem' := by
  have hcommon : 44 ≤ n → commonOf mem' = commonOf mem := fun h44 =>
    (traced_commonHeader _).value_eq ((readsWithin_commonHeader _).mpr (by omega)) hagree
  refine ⟨(traced_isGeoNet n).value_eq readsWithin_isGeoNet hagree, fun h44 => ?_, hcommon,
    fun h44 => ?_, fun hport => ?_⟩
  · exact (traced_basicHeader 0).value_eq ((readsWithin_basicHeader 0).mpr (by omega)) hagree
  · unfold timestampOf
    rw [hcommon h44]
    refine congrArg GNlpv.tst ((traced_longPositionVector _).value_eq ?_ hagree)
    rw [readsWithin_longPositionVector]
    split <;> omega
  · have h44 : 44 ≤ n := by
      unfold btpOffset at hport
      split at hport <;> omega
    unfold portOf btpOffset
    rw [hcommon h44]
    exact congrArg BtpHeader.destinationPort ((traced_btpHeader _).value_eq
      ((readsWithin_btpHeader _).mpr hport) hagree)

/-- The layers make the same of both. -/
theorem SamePacket.headersAccepted (h : SamePacket n mem mem') (h44 : 44 ≤ n)
    (hport : btpOffset mem + 4 ≤ n) (haccepted : HeadersAccepted mem) : HeadersAccepted mem' := by
  obtain ⟨⟨hversion, hsecured, hhop, htransport⟩, hports, hupper⟩ := haccepted
  have hbasic := h.basic h44
  have hcommon := h.common h44
  refine ⟨⟨by rw [hbasic]; exact hversion, by rw [hbasic]; exact hsecured,
    by rw [hbasic, hcommon]; exact hhop, by rw [hcommon]; exact htransport⟩, ?_,
    by rw [hcommon]; exact hupper⟩
  have hsame := h.port hport
  rw [portOf, portOf] at hsame
  rw [hsame]
  exact hports

end Buffer

/-! ## What the frontend makes out -/

section Frontend

variable {mem : Memory} {locals : FrontendLocals}

/-- The timestamp comes out of the packet. -/
theorem tst_gnOutcome (locals : FrontendLocals) (h : GnHeadersAccepted mem) :
    (gnOutcome locals mem).2.sourcePV.tst = timestampOf mem := by
  obtain ⟨seconds, hlt⟩ := Option.isSome_iff_exists.mp (decodeLT_isSome (basicOf mem).lifeTime)
  have hv : ¬ ((basicOf mem).version ≠ gnPtotocolVersion ∧ (basicOf mem).version ≠ 0) := by
    rintro ⟨hone, hzero⟩
    exact h.version.elim hone hzero
  rw [gnOutcome, value_decodeGN_of_checks hv h.notSecured hlt (UInt8.not_lt.mpr h.hopLimit)]
  rcases h.transport with hgbc | ⟨htsb, hsub⟩
  · rw [if_pos hgbc, timestampOf, if_pos hgbc]
    rfl
  · have hne : (commonOf mem).headerType ≠ GBC := by rw [htsb]; decide
    rw [if_neg hne, if_pos htsb, if_pos hsub, timestampOf, if_neg hne]
    rfl

/-- The port too. -/
theorem destPort_btpOutcome (h : HeadersAccepted mem) :
    (btpOutcome locals mem).2.destPort = portOf mem := by
  have hlower : LowerLayersOk locals mem := lowerLayersOk_iff.mpr h
  rcases decodeGN_cases mem locals.gndataIndication with ⟨-, -, -, hdata, -⟩ | ⟨hno, -⟩
  · have hport : ((BtpHeader.removeHeader (gnOutcome locals mem).2.data).value
        mem).destinationPort = portOf mem := by
      rw [portOf, show (gnOutcome locals mem).2.data = btpOffset mem from hdata]
    rcases decodeBTP_cases locals.btpDataIndication hport with ⟨-, -, -, hdest, -⟩ | ⟨-, herr⟩
    · exact hdest
    · exact absurd hlower.2 herr
  · exact absurd h.geonet hno

theorem value_decodeWith {Msg : Type} (asnDecode : AsnDecode Msg) (descriptor : AsnTypeDescriptor)
    (data lenght : ℕ) (before : EtsiDecodedData Msg) (mem : Memory) :
    (decodeWith asnDecode descriptor data lenght before).value mem =
      match asnDecode descriptor mem data lenght with
      | ⟨true, some msg⟩ => (ETSI_DECODER_OK, { before with decodedMsg := some (some msg) })
      | _ => (ETSI_DECODER_ERROR, before) := by
  simp only [decodeWith, Reader.value]
  generalize asnDecode descriptor mem data lenght = result
  obtain ⟨rcOk, decoded⟩ := result
  cases rcOk <;> cases decoded <;> rfl

end Frontend

/-! ## What the handler makes out -/

section Handler

variable {asn : AsnModule} {left : Leftovers} {data : List UInt8}
  {properties : List (String × Scalar)} {zonesAddress : Int}

theorem cam_eq_some {mem : Memory} {i n : ℕ} {cam : Cam} :
    asn.cam zonesAddress mem i n = some cam ↔ ∃ built zones,
      asn.decode .asnDefCAM mem i n = ⟨true, some (.cam built zones)⟩ ∧
        built.asRead zones zonesAddress = cam := by
  unfold AsnModule.cam
  split
  · rename_i built zones h
    rw [Option.some.injEq]
    refine ⟨fun hcam => ⟨built, zones, h, hcam⟩, ?_⟩
    rintro ⟨built', zones', hsame, hcam⟩
    rw [h] at hsame
    cases hsame
    exact hcam
  · rename_i hno
    refine iff_of_false (fun h => by cases h) ?_
    rintro ⟨built, zones, h, -⟩
    exact hno built zones h

/-- Without a CAM there is no structure at all. -/
theorem cam_eq_none {mem : Memory} {i n : ℕ} : asn.cam zonesAddress mem i n = none ↔
    ∀ msg, asn.decode .asnDefCAM mem i n ≠ ⟨true, some msg⟩ := by
  constructor
  · intro hnone msg hmsg
    obtain ⟨built, zones, rfl⟩ := asn.builds mem i n msg hmsg
    rw [cam_eq_some.mpr ⟨built, zones, hmsg, rfl⟩] at hnone
    cases hnone
  · intro hno
    cases hcam : asn.cam zonesAddress mem i n with
    | none => rfl
    | some cam =>
      obtain ⟨built, zones, hbuilt, -⟩ := cam_eq_some.mp hcam
      exact absurd hbuilt (hno _)

theorem cam_congr {mem mem' : Memory} {i n : ℕ} (h : ∀ k < n, mem' (i + k) = mem (i + k)) :
    asn.cam zonesAddress mem' i n = asn.cam zonesAddress mem i n := by
  unfold AsnModule.cam
  rw [asn.reads .asnDefCAM mem mem' i n h]

/-- What is left to do once `decodeEtsi` has answered. -/
def Outcome (left : Leftovers) (properties : List (String × Scalar)) :
    Int × EtsiDecodedData Decoded → Reading := fun out =>
  if out.1 ≠ ETSI_DECODER_OK then .ignored
  else
    if out.2.type.getD left.type = .cam ∨ out.2.type.getD left.type = .camNoGN then
      match decodedCam out.2 left with
      | some cam =>
        .cam ⟨if out.2.type.getD left.type = .cam then
          some (out.2.gnTimestamp.getD left.gnTimestamp) else none, cam, properties⟩
      | none => .undefined
    else .ignored

theorem readMessage_binary : readMessage asn left ⟨.binary data, properties⟩ =
    Outcome left properties ((decodeEtsi asn.decode left.locals data.length .auto
      uninitialised).value (bufferMemory data left.behind)) := rfl

/-- A CAM tail ends with the CAM of its slice, or with an error. -/
theorem outcome_cam {mem : Memory} {i n : ℕ} {before : EtsiDecodedData Decoded}
    {kind : EtsiDecodedType} (hkind : before.type = some kind)
    (hcam : kind = .cam ∨ kind = .camNoGN) :
    Outcome left properties ((decodeWith asn.decode .asnDefCAM i n before).value mem) =
      match asn.cam left.zonesAddress mem i n with
      | some cam => .cam ⟨if kind = .cam then some (before.gnTimestamp.getD left.gnTimestamp)
          else none, cam, properties⟩
      | none => .ignored := by
  rw [value_decodeWith]
  cases hslice : asn.cam left.zonesAddress mem i n with
  | some cam =>
    obtain ⟨built, zones, hbuilt, rfl⟩ := cam_eq_some.mp hslice
    rw [hbuilt]
    simp [Outcome, hkind, hcam, decodedCam]
  | none =>
    have hno := cam_eq_none.mp hslice
    split
    · rename_i msg hmsg
      exact absurd hmsg (hno msg)
    · simp [Outcome, ETSI_DECODER_ERROR, ETSI_DECODER_OK]

/-- A DENM tail is none of the handler's business. -/
theorem outcome_denm {mem : Memory} {i n : ℕ} {before : EtsiDecodedData Decoded}
    {kind : EtsiDecodedType} (hkind : before.type = some kind)
    (hcam : ¬ (kind = .cam ∨ kind = .camNoGN)) :
    Outcome left properties ((decodeWith asn.decode .asnDefDENM i n before).value mem) =
      .ignored := by
  rw [value_decodeWith]
  split
  · simp [Outcome, hkind, hcam]
  · simp [Outcome, ETSI_DECODER_ERROR, ETSI_DECODER_OK]

/-- The bare message: byte 1 tells what it is. -/
theorem outcome_facilities {mem : Memory} (n : ℕ) :
    Outcome left properties ((decodeFacilities asn.decode n uninitialised).value mem) =
      if mem 1 = CAM then
        match asn.cam left.zonesAddress mem 0 n with
        | some cam => .cam ⟨none, cam, properties⟩
        | none => .ignored
      else .ignored := by
  have hids : DENM ≠ CAM := by decide
  simp only [decodeFacilities, Reader.value_bind, Reader.value_u8]
  by_cases hcam : mem 1 = CAM
  · have hvalid : isEnumValidEtsiMessage CAM ≠ 0 := by decide
    simp only [hcam, hvalid, ne_eq, not_false_eq_true, if_true]
    exact outcome_cam rfl (Or.inr rfl)
  · rw [if_neg hcam]
    by_cases hdenm : mem 1 = DENM
    · have hvalid : isEnumValidEtsiMessage DENM ≠ 0 := by decide
      simp only [hdenm, hids, hvalid, ne_eq, not_false_eq_true, if_true, if_false]
      exact outcome_denm rfl (by decide)
    · have hinvalid : isEnumValidEtsiMessage (mem 1) = 0 := by
        simp only [isEnumValidEtsiMessage, if_neg hdenm, if_neg hcam]
      simp [hinvalid, Outcome, ETSI_DECODER_ERROR, ETSI_DECODER_OK]

/-- An accepted packet for the CAM port, with the record it is decoded
into. -/
theorem value_decodeGeoNet_stamped (asn : AsnModule) {mem : Memory} (locals : FrontendLocals)
    (h : HeadersAccepted mem) (hport : portOf mem = CA_PORT) :
    ∃ before : EtsiDecodedData Decoded, before.type = some .cam ∧
      before.gnTimestamp = some (timestampOf mem) ∧
      (decodeGeoNet asn.decode locals uninitialised).value mem =
        (decodeWith asn.decode .asnDefCAM (payloadOffset mem)
          (btpOutcome locals mem).2.lenght.toNat before).value mem := by
  have hlower : LowerLayersOk locals mem := lowerLayersOk_iff.mpr h
  have hdest : (btpOutcome locals mem).2.destPort = CA_PORT :=
    (destPort_btpOutcome h).trans hport
  rw [← tst_gnOutcome locals h.geonet, ← (btpOutcome_slice hlower).1]
  obtain ⟨hgn, hbtp⟩ := hlower
  simp only [btpOutcome, gnOutcome] at hgn hbtp hdest
  unfold decodeGeoNet
  simp only [Reader.value_bind, hgn, ne_eq, not_true_eq_false, if_false, hbtp, hdest, if_true]
  exact ⟨_, rfl, rfl, rfl⟩

/-- The full message: the port tells what it is. -/
theorem outcome_its {mem : Memory} (h : HeadersAccepted mem) :
    Outcome left properties ((decodeGeoNet asn.decode left.locals uninitialised).value mem) =
      if portOf mem = CA_PORT then
        match asn.cam left.zonesAddress mem (payloadOffset mem)
            (btpOutcome left.locals mem).2.lenght.toNat with
        | some cam => .cam ⟨some (timestampOf mem), cam, properties⟩
        | none => .ignored
      else .ignored := by
  by_cases hport : portOf mem = CA_PORT
  · obtain ⟨before, hkind, hstamp, hvalue⟩ :=
      value_decodeGeoNet_stamped asn left.locals h hport
    rw [if_pos hport, hvalue, outcome_cam hkind (Or.inl rfl), hstamp]
    rfl
  · have hlower : LowerLayersOk left.locals mem := lowerLayersOk_iff.mpr h
    have hdenm : (btpOutcome left.locals mem).2.destPort = DEN_PORT :=
      (destPort_of_lowerLayersOk hlower).resolve_left fun hcam =>
        hport ((destPort_btpOutcome h).symm.trans hcam)
    obtain ⟨before, hkind, hvalue⟩ := value_decodeGeoNet_denm asn.decode uninitialised hlower hdenm
    rw [if_neg hport, hvalue, outcome_denm hkind (by decide)]

/-- A clean packet makes the handler do what its bytes say, and nothing
that was left in memory plays a part, the address of the zones aside. -/
theorem readMessage_of_clean (asn : AsnModule) (left : Leftovers) (h : Clean data)
    (properties : List (String × Scalar)) :
    readMessage asn left ⟨.binary data, properties⟩ =
      match camOf asn left.zonesAddress ⟨.binary data, properties⟩ with
      | some m => .cam m
      | none => .ignored := by
  have hagree : ∀ i < data.length, bufferMemory data left.behind i = bytesOf data i :=
    fun i hi => bufferMemory_eq data left.behind hi
  have hsame := samePacket_of_agree hagree
  rw [readMessage_binary]
  by_cases hempty : data.length = 0
  · have hnil : data = [] := List.length_eq_zero_iff.mp hempty
    subst hnil
    have hpath : ¬ TakenForIts [] := by decide
    simp [Outcome, decodeEtsi, camOf, hpath, ETSI_DECODER_ERROR, ETSI_DECODER_OK]
  by_cases hpath : TakenForIts data
  · have h44 : 44 ≤ data.length := le_of_isGeoNet hpath
    have haccepted := h.accepted hpath
    have hoffset : btpOffset (bytesOf data) + 4 ≤ data.length := by
      unfold btpOffset
      split
      · rename_i hgbc
        exact h.headers hpath haccepted.geonet hgbc
      · exact h44
    have haccepted' := hsame.headersAccepted h44 hoffset haccepted
    obtain ⟨hfour, hfits⟩ := h.payload hpath
    have hlower : LowerLayersOk left.locals (bufferMemory data left.behind) :=
      lowerLayersOk_iff.mpr haccepted'
    have hlenght := lenght_toNat hlower
    rw [hsame.common h44, if_pos hfour] at hlenght
    have hpayload :
        payloadOffset (bufferMemory data left.behind) = payloadOffset (bytesOf data) := by
      rw [payloadOffset, payloadOffset, hsame.common h44]
    have hslice : asn.cam left.zonesAddress (bufferMemory data left.behind)
        (payloadOffset (bytesOf data)) ((commonOf (bytesOf data)).payload.toNat - 4) =
        asn.cam left.zonesAddress (bytesOf data) (payloadOffset (bytesOf data))
          ((commonOf (bytesOf data)).payload.toNat - 4) := by
      refine cam_congr fun k hk => hagree _ ?_
      have hbehind : payloadOffset (bytesOf data) = btpOffset (bytesOf data) + 4 := by
        unfold payloadOffset btpOffset
        split <;> rfl
      omega
    rw [value_decodeEtsi_geoNet _ _ _ hempty (hsame.path.trans hpath), outcome_its haccepted',
      hsame.port hoffset, hsame.timestamp h44, hlenght, hpayload, hslice]
    simp only [camOf, if_pos hpath]
    split
    · cases asn.cam left.zonesAddress (bytesOf data) (payloadOffset (bytesOf data))
        ((commonOf (bytesOf data)).payload.toNat - 4) <;> rfl
    · rfl
  · have hpath' : (isGeoNet data.length .auto).value (bufferMemory data left.behind) = false := by
      rw [hsame.path]
      exact Bool.eq_false_iff.mpr hpath
    have htwo : 1 < data.length := by
      have hone := h.notOne
      omega
    have hmessageID : bufferMemory data left.behind 1 = CAM ↔ data[1]? = some CAM := by
      rw [hagree 1 htwo, bytesOf_eq_iff htwo]
    have hslice : asn.cam left.zonesAddress (bufferMemory data left.behind) 0 data.length =
        asn.cam left.zonesAddress (bytesOf data) 0 data.length :=
      cam_congr fun k hk => hagree _ (by omega)
    rw [value_decodeEtsi_facilities _ _ _ hempty hpath', outcome_facilities, hslice]
    simp only [camOf, if_neg hpath, hmessageID]
    split
    · cases asn.cam left.zonesAddress (bytesOf data) 0 data.length <;> rfl
    · rfl

/-- A rejected packet makes the handler do what the leftovers say. -/
theorem readMessage_of_rejected (asn : AsnModule) (left : Leftovers)
    (h : Rejected data left.behind) (properties : List (String × Scalar)) :
    readMessage asn left ⟨.binary data, properties⟩ =
      if left.type = .cam ∨ left.type = .camNoGN then
        match left.decodedMsg with
        | some cam =>
          .cam ⟨if left.type = .cam then some left.gnTimestamp else none, cam, properties⟩
        | none => .undefined
      else .ignored := by
  have hagree : ∀ i < data.length, bufferMemory data left.behind i = bytesOf data i :=
    fun i hi => bufferMemory_eq data left.behind hi
  have hempty : data.length ≠ 0 := by
    have h44 := le_of_isGeoNet h.path
    omega
  have hlower : ¬ LowerLayersOk left.locals (bufferMemory data left.behind) :=
    fun hok => h.headers (lowerLayersOk_iff.mp hok)
  rw [readMessage_binary, value_decodeEtsi_geoNet _ _ _ hempty
    ((samePacket_of_agree hagree).path.trans h.path), value_decodeGeoNet_rejected hlower]
  rfl

end Handler

end SLDM.Client
