/-
SLDM.Decoder.Headers — the GeoNetworking and BTP header decoders of
`decoder-module/src` (`basicHeader`, `commonHeader`, `shbHeader`,
`gbcHeader`, `btpHeader`) and the records of `decoder-module/include/utils.h`.

Each `removeHeader` takes a pointer and reads fixed offsets behind it;
here the pointer is an index into the received buffer and the reads are
`ByteReader` reads, so the indices touched are part of the model. The
host is little-endian: `memcpy` of two bytes into a `uint16_t` puts the
first byte in the low half, and `swap16bit` turns it round.

The reserved and optional record fields that no function reads
(`GNSecurityR` … `GNMaxRepInt`) are left out.
-/
import SLDM.Lib.ByteReader

namespace SLDM.Decoder

open ByteReader

/-! ## Byte order -/

/-- `swap_16bit` of `utils.h`. -/
def swap16bit (us : UInt16) : UInt16 :=
  ((us &&& 0xFF00) >>> 8) ||| ((us &&& 0x00FF) <<< 8)

/-- `swap_32bit` of `utils.h`. -/
def swap32bit (ul : UInt32) : UInt32 :=
  ((ul &&& 0xFF000000) >>> 24) ||| ((ul &&& 0x00FF0000) >>> 8)
    ||| ((ul &&& 0x0000FF00) <<< 8) ||| ((ul &&& 0x000000FF) <<< 24)

/-- `memcpy(&x, buffer, sizeof(uint16_t))` on a little-endian host. -/
def memcpy16 (buffer : ℕ) : Reader UInt16 := do
  let b0 ← Reader.u8 buffer
  let b1 ← Reader.u8 (buffer + 1)
  return b0.toUInt16 ||| (b1.toUInt16 <<< 8)

/-- `memcpy(&x, buffer, sizeof(uint32_t))` on a little-endian host. -/
def memcpy32 (buffer : ℕ) : Reader UInt32 := do
  let b0 ← Reader.u8 buffer
  let b1 ← Reader.u8 (buffer + 1)
  let b2 ← Reader.u8 (buffer + 2)
  let b3 ← Reader.u8 (buffer + 3)
  return b0.toUInt32 ||| (b1.toUInt32 <<< 8) ||| (b2.toUInt32 <<< 16)
    ||| (b3.toUInt32 <<< 24)

/-! ## Records and codes -/

/-- `gnError_e`. -/
inductive GnError where
  | gnOk
  | gnVersionError
  | gnSecuredError
  | gnLifetimeError
  | gnHopLimitError
  | gnTypeError
  deriving DecidableEq, Repr

/-- `btpError_e`. -/
inductive BtpError where
  | btpOk
  | btpError
  deriving DecidableEq, Repr

/-! The values of `TransportType_t`, `BTPType_t` and the ports of `btp.h`
that the decoders dispatch on. -/
def GBC : UInt8 := 4
def TSB : UInt8 := 5
def BTP_A : UInt8 := 1
def BTP_B : UInt8 := 2
def CA_PORT : UInt16 := 2001
def DEN_PORT : UInt16 := 2002

/-- `GNlpv_t`, a long position vector. `speed` is a 15-bit field. -/
structure GNlpv where
  gnAddress : List UInt8
  tst : UInt32
  latitude : Int32
  longitude : Int32
  positionAccuracy : Bool
  speed : Int16
  heading : UInt16
  deriving DecidableEq, Inhabited, Repr

/-- `GeoArea_t`. -/
structure GeoArea where
  posLong : Int32
  posLat : Int32
  distA : UInt16
  distB : UInt16
  angle : UInt16
  shape : UInt8
  deriving DecidableEq, Inhabited, Repr

/-! ## Basic header (4 bytes) -/

structure BasicHeader where
  version : UInt8
  nextHeader : UInt8
  reserved : UInt8
  lifeTime : UInt8
  remainingHopLimit : UInt8
  deriving DecidableEq, Repr

/-- `basicHeader::removeHeader`. -/
def BasicHeader.removeHeader (buffer : ℕ) : Reader BasicHeader := do
  let versionNH ← Reader.u8 buffer
  let reserved ← Reader.u8 (buffer + 1)
  let lifeTime ← Reader.u8 (buffer + 2)
  let remainingHopLimit ← Reader.u8 (buffer + 3)
  return { version := versionNH >>> 4, nextHeader := versionNH &&& 0x0f,
           reserved, lifeTime, remainingHopLimit }

/-! ## Common header (8 bytes) -/

structure CommonHeader where
  nextHeader : UInt8
  headerType : UInt8
  headerSubType : UInt8
  trafficClass : UInt8
  flag : Bool
  payload : UInt16
  maxHopLimit : UInt8
  reserved : UInt8
  deriving DecidableEq, Repr

/-- `commonHeader::removeHeader`. -/
def CommonHeader.removeHeader (buffer : ℕ) : Reader CommonHeader := do
  let chNH ← Reader.u8 buffer
  let headerType ← Reader.u8 (buffer + 1)
  let trafficClass ← Reader.u8 (buffer + 2)
  let chflag ← Reader.u8 (buffer + 3)
  let payload ← memcpy16 (buffer + 4)
  let maxHopLimit ← Reader.u8 (buffer + 6)
  let reserved ← Reader.u8 (buffer + 7)
  return { nextHeader := chNH >>> 4, headerType := headerType >>> 4,
           headerSubType := headerType &&& 0x0f, trafficClass,
           flag := chflag >>> 7 != 0, payload := swap16bit payload,
           maxHopLimit, reserved }

/-! ## Long position vector (24 bytes), read alike by both extended headers -/

/-- The statements `shbHeader::removeHeader` and `gbcHeader::removeHeader`
share. The speed keeps the low seven bits only, as the source masks it. -/
def GNlpv.read (buffer : ℕ) : Reader GNlpv := do
  let gnAddress ← Reader.bytes buffer 8
  let tst ← memcpy32 (buffer + 8)
  let latitude ← memcpy32 (buffer + 12)
  let longitude ← memcpy32 (buffer + 16)
  let paiSpeed ← memcpy16 (buffer + 20)
  let heading ← memcpy16 (buffer + 22)
  return { gnAddress, tst := swap32bit tst,
           latitude := (swap32bit latitude).toInt32,
           longitude := (swap32bit longitude).toInt32,
           positionAccuracy := swap16bit paiSpeed >>> 15 != 0,
           speed := (swap16bit paiSpeed &&& 0x7f).toInt16,
           heading := swap16bit heading }

/-! ## Single-hop broadcast header -/

/-- `shbHeader::removeHeader` followed by `GetLongPositionV`. -/
def ShbHeader.removeHeader (buffer : ℕ) : Reader GNlpv := GNlpv.read buffer

/-! ## Geo-broadcast header -/

structure GbcHeader where
  seqNumber : UInt16
  sourcePV : GNlpv
  posLat : Int32
  posLong : Int32
  distA : UInt16
  distB : UInt16
  angle : UInt16
  reserved : UInt16
  deriving DecidableEq, Repr

/-- `gbcHeader::removeHeader`. The last field goes through `swap_32bit`
although it is 16 bits wide, as in the source. -/
def GbcHeader.removeHeader (buffer : ℕ) : Reader GbcHeader := do
  let seqNumber ← memcpy16 buffer
  let _reserved ← memcpy16 (buffer + 2)
  let sourcePV ← GNlpv.read (buffer + 4)
  let posLat ← memcpy32 (buffer + 28)
  let posLong ← memcpy32 (buffer + 32)
  let distA ← memcpy16 (buffer + 36)
  let distB ← memcpy16 (buffer + 38)
  let angle ← memcpy16 (buffer + 40)
  let reserved ← memcpy16 (buffer + 42)
  return { seqNumber := swap16bit seqNumber, sourcePV,
           posLat := (swap32bit posLat).toInt32,
           posLong := (swap32bit posLong).toInt32,
           distA := swap16bit distA, distB := swap16bit distB,
           angle := swap16bit angle,
           reserved := (swap32bit reserved.toUInt32).toUInt16 }

/-- `gbcHeader::GetGeoArea`; `shape` is left as the caller's variable had
it, and `processGBC` sets it afterwards. -/
def GbcHeader.getGeoArea (h : GbcHeader) (shape : UInt8) : GeoArea where
  posLat := h.posLat
  posLong := h.posLong
  distA := h.distA
  distB := h.distB
  angle := h.angle
  shape := shape

/-! ## BTP header (4 bytes) -/

structure BtpHeader where
  destinationPort : UInt16
  sourceDestInfo : UInt16
  deriving DecidableEq, Repr

/-- `btpHeader::removeHeader`. -/
def BtpHeader.removeHeader (buffer : ℕ) : Reader BtpHeader := do
  let destinationPort ← memcpy16 buffer
  let sourceDestInfo ← memcpy16 (buffer + 2)
  return { destinationPort := swap16bit destinationPort,
           sourceDestInfo := swap16bit sourceDestInfo }

end SLDM.Decoder
