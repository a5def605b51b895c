/-
SLDM.Decoder.Frontend — `GeoNet::decodeGN`, `btp::decodeBTP` and
`decoderFrontend::decodeEtsi`, from the received buffer to the call of
the generated `asn_decode`.

The generated ASN.1 decoder is a parameter `asnDecode`: it is called
with the type descriptor, the slice start and the slice length, and
answers with a result code and the pointer it stored (`none` is the null
pointer). Local records that the C++ code leaves uninitialised
(`gndataIndication`, `btpDataIndication`) are parameters too, so no
theorem can depend on their contents.

Output parameters are records of SLOTS: `none` means the function has
not written the member and it holds whatever bits were there before.

The packet dump that `m_print_pkt` switches on and the texts sent to
`std::cerr` and `std::cout` are left out.
-/
import SLDM.Decoder.Headers
import Mathlib.Data.Rat.Defs

namespace SLDM.Decoder

open ByteReader

/-! ## GeoNetworking -/

/-- `GNDataIndication_t`; `data` is an index into the received buffer. -/
structure GNDataIndication where
  upperProtocol : UInt8
  sourcePV : GNlpv
  gnAddressDest : GeoArea
  gnTraClass : UInt8
  gnRemainingLife : ℚ
  gnRemainingHL : Int16
  gnType : UInt8
  lenght : UInt32
  data : ℕ
  deriving DecidableEq, Inhabited, Repr

/-- `m_GnPtotocolVersion` of `geonet.h`. -/
def gnPtotocolVersion : UInt8 := 1

/-- `GeoNet::decodeLT`: the lifetime in seconds. The source's `default`
case cannot be reached, the base being two bits wide. -/
def decodeLT (lifeTime : UInt8) : Option ℚ :=
  let base := lifeTime &&& 0x03
  let multiplier : ℚ := ((lifeTime &&& 0xFC) >>> 2).toNat
  if base = 0 then some (multiplier * (50 / 1000))
  else if base = 1 then some (multiplier * 1)
  else if base = 2 then some (multiplier * 10)
  else if base = 3 then some (multiplier * 100)
  else none

/-- `GeoNet::processSHB`. -/
def processSHB (di : GNDataIndication) : Reader GNDataIndication := do
  let sourcePV ← ShbHeader.removeHeader di.data
  return { di with data := di.data + 28, sourcePV, gnType := TSB }

/-- `GeoNet::processGBC`. -/
def processGBC (di : GNDataIndication) (shape : UInt8) : Reader GNDataIndication := do
  let gbcH ← GbcHeader.removeHeader di.data
  return { di with data := di.data + 44, sourcePV := gbcH.sourcePV,
                   gnAddressDest := gbcH.getGeoArea shape, gnType := GBC }

/-- `GeoNet::decodeGN`. `di` is the caller's record before the call. -/
def decodeGN (packet : ℕ) (di : GNDataIndication) : Reader (GnError × GNDataIndication) := do
  let basicH ← BasicHeader.removeHeader packet
  let di := { di with data := packet + 4, gnRemainingLife := (basicH.lifeTime.toNat : ℚ),
                      gnRemainingHL := basicH.remainingHopLimit.toUInt16.toInt16 }
  if basicH.version ≠ gnPtotocolVersion ∧ basicH.version ≠ 0 then
    return (.gnVersionError, di)
  else if basicH.nextHeader = 2 then
    return (.gnSecuredError, di)
  else
    match decodeLT basicH.lifeTime with
    | none => return (.gnLifetimeError, di)
    | some seconds =>
      let di := { di with gnRemainingLife := seconds }
      let commonH ← CommonHeader.removeHeader di.data
      let di := { di with data := di.data + 8, upperProtocol := commonH.nextHeader,
                          gnTraClass := commonH.trafficClass }
      if commonH.maxHopLimit < basicH.remainingHopLimit then
        return (.gnHopLimitError, di)
      else
        let di := { di with gnType := commonH.headerType,
                            lenght := commonH.payload.toUInt32 }
        if di.gnType = GBC then
          let di ← processGBC di commonH.headerSubType
          return (.gnOk, di)
        else if di.gnType = TSB then
          if commonH.headerSubType = 0 then
            let di ← processSHB di
            return (.gnOk, di)
          else return (.gnTypeError, di)
        else return (.gnTypeError, di)

/-! ## Basic Transport Protocol -/

/-- `BTPDataIndication_t`. -/
structure BTPDataIndication where
  btpType : UInt8
  destPort : UInt16
  sourcePort : UInt16
  destPInfo : UInt16
  gnAddress : GeoArea
  gnPositionV : GNlpv
  gnTraClass : UInt8
  gnRemPLife : ℚ
  lenght : UInt32
  data : ℕ
  deriving DecidableEq, Inhabited, Repr

/-- `btp::decodeBTP`. The payload length is an unsigned 32-bit difference. -/
def decodeBTP (di : GNDataIndication) (bi : BTPDataIndication) :
    Reader (BtpError × BTPDataIndication) := do
  let header ← BtpHeader.removeHeader di.data
  let bi := { bi with data := di.data + 4, btpType := di.upperProtocol }
  if header.destinationPort ≠ CA_PORT ∧ header.destinationPort ≠ DEN_PORT then
    return (.btpError, bi)
  else
    let bi := { bi with destPort := header.destinationPort }
    let finish (bi : BTPDataIndication) : BTPDataIndication :=
      { bi with gnAddress := di.gnAddressDest, gnTraClass := di.gnTraClass,
                gnRemPLife := di.gnRemainingLife, gnPositionV := di.sourcePV,
                data := di.data + 4, lenght := di.lenght - 4 }
    if bi.btpType = BTP_A then
      return (.btpOk, finish { bi with sourcePort := header.sourceDestInfo, destPInfo := 0 })
    else if bi.btpType = BTP_B then
      return (.btpOk, finish { bi with destPInfo := header.sourceDestInfo, sourcePort := 0 })
    else return (.btpError, bi)

/-! ## The frontend -/

/-- `etsi_message_t`: the two supported messageIDs of `MSGTYPES`. -/
def DENM : UInt8 := 1
def CAM : UInt8 := 2

/-- `is_enum_valid_etsi_message_t`: the enumerator's value, or 0. -/
def isEnumValidEtsiMessage (enumValue : UInt8) : Int :=
  if enumValue = DENM then 1 else if enumValue = CAM then 2 else 0

/-- `etsiDecodedType_e`, in declaration order. -/
inductive EtsiDecodedType where
  | error
  | cam
  | denm
  | ivim
  | cpm
  | camNoGN
  | denmNoGN
  | ivimNoGN
  | cpmNoGN
  deriving DecidableEq, Repr

/-- The numeric value of an `etsiDecodedType_e` enumerator. -/
def EtsiDecodedType.toInt : EtsiDecodedType → Int
  | .error => 0
  | .cam => 1
  | .denm => 2
  | .ivim => 3
  | .cpm => 4
  | .camNoGN => 5
  | .denmNoGN => 6
  | .ivimNoGN => 7
  | .cpmNoGN => 8

/-- The two return codes of `etsiDecoderFrontend.h`. -/
def ETSI_DECODER_OK : Int := 0
def ETSI_DECODER_ERROR : Int := 1

/-- `decoderFrontend::msgType_e`. -/
inductive MsgType where
  | its
  | facilityOnly
  | auto
  deriving DecidableEq, Repr

/-- The type descriptors handed to `asn_decode`. -/
inductive AsnTypeDescriptor where
  | asnDefCAM
  | asnDefDENM
  deriving DecidableEq, Repr

/-- What `asn_decode` answers: whether `code` is `RC_OK`, and the pointer
stored in `decoded_`. -/
structure AsnDecRval (Msg : Type) where
  rcOk : Bool
  decoded : Option Msg

/-- `etsiDecodedData_t` as slots. `decodedMsg` is the pointer written:
`some none` is the null pointer. -/
structure EtsiDecodedData (Msg : Type) where
  decodedMsg : Option (Option Msg)
  type : Option EtsiDecodedType
  gnTimestamp : Option UInt32
  posLong : Option Int32
  posLat : Option Int32
  distA : Option UInt16
  distB : Option UInt16
  angle : Option UInt16
  deriving DecidableEq, Repr

/-- The generated decoder: descriptor, memory, slice start, slice length. -/
abbrev AsnDecode (Msg : Type) := AsnTypeDescriptor → Memory → ℕ → ℕ → AsnDecRval Msg

/-- The uninitialised locals of `decodeEtsi`. -/
structure FrontendLocals where
  gndataIndication : GNDataIndication
  btpDataIndication : BTPDataIndication
  deriving Inhabited

/-- Whether `decodeEtsi` takes the buffer for a full ITS message. -/
def isGeoNet (buflen : ℕ) : MsgType → Reader Bool
  | .its => return true
  | .facilityOnly => return false
  | .auto =>
    if buflen < 44 then return false
    else do
      let messageID ← Reader.u8 1
      return isEnumValidEtsiMessage messageID == 0

variable {Msg : Type}

/-- The shared tail of the four decoding branches: call `asn_decode`,
check the code and the pointer, then store the pointer. -/
def decodeWith (asnDecode : AsnDecode Msg) (descriptor : AsnTypeDescriptor)
    (data lenght : ℕ) (decodedData : EtsiDecodedData Msg) :
    Reader (Int × EtsiDecodedData Msg) := fun mem =>
  let result := asnDecode descriptor mem data lenght
  if !result.rcOk || result.decoded.isNone then ((ETSI_DECODER_ERROR, decodedData), [])
  else ((ETSI_DECODER_OK, { decodedData with decodedMsg := some result.decoded }), [])

/-- The branch of `decodeEtsi` for a full ITS message. A GeoNetworking or
BTP failure returns `ETSI_DECODED_ERROR`, the first enumerator of
`etsiDecodedType_e`. -/
def decodeGeoNet (asnDecode : AsnDecode Msg) (locals : FrontendLocals)
    (decodedData : EtsiDecodedData Msg) : Reader (Int × EtsiDecodedData Msg) := do
  let (gnResult, gndi) ← decodeGN 0 locals.gndataIndication
  if gnResult ≠ .gnOk then
    return (EtsiDecodedType.error.toInt, decodedData)
  else
    let (btpResult, bi) ← decodeBTP gndi locals.btpDataIndication
    if btpResult ≠ .btpOk then
      return (EtsiDecodedType.error.toInt, decodedData)
    else
      let decodedData := { decodedData with gnTimestamp := some gndi.sourcePV.tst }
      if bi.destPort = CA_PORT then
        decodeWith asnDecode .asnDefCAM bi.data bi.lenght.toNat
          { decodedData with type := some .cam }
      else if bi.destPort = DEN_PORT then
        decodeWith asnDecode .asnDefDENM bi.data bi.lenght.toNat
          { decodedData with
              posLat := some gndi.gnAddressDest.posLat,
              posLong := some gndi.gnAddressDest.posLong,
              distA := some gndi.gnAddressDest.distA,
              distB := some gndi.gnAddressDest.distB,
              angle := some gndi.gnAddressDest.angle,
              type := some .denm }
      else
        return (ETSI_DECODER_ERROR, { decodedData with type := some .error })

/-- The branch of `decodeEtsi` for a pure Facilities layer message. -/
def decodeFacilities (asnDecode : AsnDecode Msg) (buflen : ℕ)
    (decodedData : EtsiDecodedData Msg) : Reader (Int × EtsiDecodedData Msg) := do
  let messageID ← Reader.u8 1
  if isEnumValidEtsiMessage messageID ≠ 0 then
    if messageID = CAM then
      decodeWith asnDecode .asnDefCAM 0 buflen { decodedData with type := some .camNoGN }
    else if messageID = DENM then
      decodeWith asnDecode .asnDefDENM 0 buflen { decodedData with type := some .denmNoGN }
    else return (ETSI_DECODER_ERROR, { decodedData with type := some .error })
  else return (ETSI_DECODER_ERROR, { decodedData with type := some .error })

/-- `decoderFrontend::decodeEtsi`. -/
def decodeEtsi (asnDecode : AsnDecode Msg) (locals : FrontendLocals) (buflen : ℕ)
    (msgtype : MsgType) (decodedData : EtsiDecodedData Msg) :
    Reader (Int × EtsiDecodedData Msg) := do
  if buflen = 0 then
    return (ETSI_DECODER_ERROR, decodedData)
  else
    let isGN ← isGeoNet buflen msgtype
    if isGN then decodeGeoNet asnDecode locals decodedData
    else decodeFacilities asnDecode buflen decodedData

end SLDM.Decoder
