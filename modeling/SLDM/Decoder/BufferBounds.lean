/-
SLDM.Decoder.BufferBounds — what `decodeEtsi` reads of its buffer, and
what it hands on.

`decodeEtsi` compares `buflen` with one constant, 44, the size of a
single-hop broadcast packet without payload; a geo-broadcast header is 16
bytes longer, and the Facilities path reads byte 1 of any buffer. The
length of the payload comes from the packet and is never compared with
`buflen`.

* `readsInside_iff` — the indices read before `asn_decode` is called,
  against the length of the buffer;
* `sliceInside_iff` — the slice handed to `asn_decode`, against the length
  the packet declares.

Both rest on one lemma for each header (`readsWithin_…`): a header of `k`
bytes at index `i` is read within `n` exactly when `i + k ≤ n`.
-/
import SLDM.Decoder.FrontendTheorems

namespace SLDM.Decoder

open ByteReader Reader

/-! ## The bytes a header takes -/

section Headers

variable {mem : Memory} {n : ℕ}

@[simp] theorem readsWithin_memcpy16 (buffer : ℕ) :
    ReadsWithin (memcpy16 buffer) mem n ↔ buffer + 2 ≤ n := by
  simp only [memcpy16, readsWithin_bind, readsWithin_u8, readsWithin_pure, and_true]
  omega

@[simp] theorem readsWithin_memcpy32 (buffer : ℕ) :
    ReadsWithin (memcpy32 buffer) mem n ↔ buffer + 4 ≤ n := by
  simp only [memcpy32, readsWithin_bind, readsWithin_u8, readsWithin_pure, and_true]
  omega

@[simp] theorem readsWithin_basicHeader (buffer : ℕ) :
    ReadsWithin (BasicHeader.removeHeader buffer) mem n ↔ buffer + 4 ≤ n := by
  simp only [BasicHeader.removeHeader, readsWithin_bind, readsWithin_u8, readsWithin_pure, and_true]
  omega

@[simp] theorem readsWithin_commonHeader (buffer : ℕ) :
    ReadsWithin (CommonHeader.removeHeader buffer) mem n ↔ buffer + 8 ≤ n := by
  simp only [CommonHeader.removeHeader, readsWithin_bind, readsWithin_u8, readsWithin_memcpy16,
    readsWithin_pure, and_true]
  omega

@[simp] theorem readsWithin_longPositionVector (buffer : ℕ) :
    ReadsWithin (GNlpv.read buffer) mem n ↔ buffer + 24 ≤ n := by
  simp only [GNlpv.read, readsWithin_bind, readsWithin_bytes, readsWithin_memcpy16,
    readsWithin_memcpy32, readsWithin_pure, and_true]
  omega

@[simp] theorem readsWithin_gbcHeader (buffer : ℕ) :
    ReadsWithin (GbcHeader.removeHeader buffer) mem n ↔ buffer + 44 ≤ n := by
  simp only [GbcHeader.removeHeader, readsWithin_bind, readsWithin_longPositionVector,
    readsWithin_memcpy16, readsWithin_memcpy32, readsWithin_pure, and_true]
  omega

@[simp] theorem readsWithin_btpHeader (buffer : ℕ) :
    ReadsWithin (BtpHeader.removeHeader buffer) mem n ↔ buffer + 4 ≤ n := by
  simp only [BtpHeader.removeHeader, readsWithin_bind, readsWithin_memcpy16, readsWithin_pure,
    and_true]
  omega

end Headers

/-! ## The bytes a layer takes -/

section Layers

variable {mem : Memory} {n : ℕ}

/-- `decodeGN` reads the two fixed headers, and the extended header when
it gets that far: 36 bytes in all, 56 for a geo-broadcast packet. -/
theorem readsWithin_decodeGN (di : GNDataIndication) (h : 36 ≤ n)
    (hgbc : GnHeadersAccepted mem → (commonOf mem).headerType = GBC → 56 ≤ n) :
    ReadsWithin (decodeGN 0 di) mem n := by
  obtain ⟨seconds, hlt⟩ := Option.isSome_iff_exists.mp (decodeLT_isSome (basicOf mem).lifeTime)
  unfold decodeGN
  simp only [readsWithin_bind, readsWithin_basicHeader, readsWithin_ite, readsWithin_pure]
  refine ⟨by omega, ?_⟩
  by_cases hv : (basicOf mem).version ≠ gnPtotocolVersion ∧ (basicOf mem).version ≠ 0
  · rw [if_pos hv]; trivial
  rw [if_neg hv]
  by_cases hs : (basicOf mem).nextHeader = 2
  · rw [if_pos hs]; trivial
  rw [if_neg hs]
  simp only [hlt, readsWithin_bind, readsWithin_commonHeader, readsWithin_ite, readsWithin_pure]
  refine ⟨by omega, ?_⟩
  by_cases hh : (commonOf mem).maxHopLimit < (basicOf mem).remainingHopLimit
  · rw [if_pos hh]; trivial
  rw [if_neg hh]
  by_cases hG : (commonOf mem).headerType = GBC
  · have haccepted : GnHeadersAccepted mem :=
      ⟨by tauto, hs, UInt8.not_lt.mp hh, Or.inl hG⟩
    have h56 := hgbc haccepted hG
    rw [if_pos hG]
    simp only [processGBC, readsWithin_bind, readsWithin_gbcHeader, readsWithin_pure, and_true]
    omega
  rw [if_neg hG]
  split
  · split
    · simp only [processSHB, ShbHeader.removeHeader, readsWithin_bind,
        readsWithin_longPositionVector, readsWithin_pure, and_true]
      omega
    · trivial
  · trivial

/-- `decodeBTP` reads its header, whatever it makes of it. -/
theorem readsWithin_decodeBTP (di : GNDataIndication) (bi : BTPDataIndication) :
    ReadsWithin (decodeBTP di bi) mem n ↔ di.data + 4 ≤ n := by
  unfold decodeBTP
  simp only [readsWithin_bind, readsWithin_btpHeader, readsWithin_ite, readsWithin_pure, ite_self,
    and_true]

variable {Msg : Type} (asnDecode : AsnDecode Msg) (decodedData : EtsiDecodedData Msg)

/-- The tails read nothing themselves. -/
@[simp] theorem readsWithin_decodeWith (descriptor : AsnTypeDescriptor) (data lenght : ℕ) :
    ReadsWithin (decodeWith asnDecode descriptor data lenght decodedData) mem n := by
  intro i hi
  have hreads : (decodeWith asnDecode descriptor data lenght decodedData).reads mem = [] := by
    simp only [Reader.reads, decodeWith]
    split <;> rfl
  rw [hreads] at hi
  exact absurd hi List.not_mem_nil

/-- The GeoNetworking path: `decodeGN`, and `decodeBTP` if it succeeds. -/
theorem readsWithin_decodeGeoNet (locals : FrontendLocals) :
    ReadsWithin (decodeGeoNet asnDecode locals decodedData) mem n ↔
      ReadsWithin (decodeGN 0 locals.gndataIndication) mem n ∧
        ((gnOutcome locals mem).1 = .gnOk → (gnOutcome locals mem).2.data + 4 ≤ n) := by
  unfold decodeGeoNet
  simp only [readsWithin_bind, readsWithin_ite, readsWithin_pure, readsWithin_decodeBTP,
    readsWithin_decodeWith, ite_self, and_true, gnOutcome]
  refine and_congr_right fun _ => ?_
  by_cases hok : ((decodeGN 0 locals.gndataIndication).value mem).1 = .gnOk <;> simp [hok]

/-- The Facilities path reads byte 1. -/
theorem readsWithin_decodeFacilities (buflen : ℕ) :
    ReadsWithin (decodeFacilities asnDecode buflen decodedData) mem n ↔ 1 < n := by
  unfold decodeFacilities
  simp only [readsWithin_bind, readsWithin_u8, readsWithin_ite, readsWithin_pure,
    readsWithin_decodeWith, ite_self, and_true]

end Layers

/-! ## Reads stay inside the buffer -/

section Reads

variable {Msg : Type} (asnDecode : AsnDecode Msg) (locals : FrontendLocals) (buflen : ℕ)
  (decodedData : EtsiDecodedData Msg) (mem : Memory)

/-- Every byte `decodeEtsi` reads before it calls `asn_decode`, with the
detection on, has an index below `buflen`. -/
def ReadsInside : Prop :=
  ReadsWithin (decodeEtsi asnDecode locals buflen .auto decodedData) mem buflen

/-- A buffer taken for a full ITS message with an acceptable geo-broadcast
header holds that header and the BTP header. -/
def GbcFits : Prop :=
  (isGeoNet buflen .auto).value mem = true → GnHeadersAccepted mem →
    (commonOf mem).headerType = GBC → 60 ≤ buflen

variable {buflen mem}

/-- Only a buffer of 44 bytes or more is taken for a full ITS message. -/
theorem le_of_isGeoNet (h : (isGeoNet buflen .auto).value mem = true) : 44 ≤ buflen := by
  unfold isGeoNet at h
  rw [Reader.value_ite] at h
  split at h
  · cases h
  · omega

theorem readsWithin_isGeoNet : ReadsWithin (isGeoNet buflen .auto) mem buflen := by
  unfold isGeoNet
  rw [readsWithin_ite]
  split
  · exact readsWithin_pure false
  · simp only [readsWithin_bind, readsWithin_u8, readsWithin_pure, and_true]
    omega

/-- The reads of a buffer taken for a full ITS message. -/
theorem readsWithin_geoNet_iff (hpath : (isGeoNet buflen .auto).value mem = true) :
    ReadsWithin (decodeGeoNet asnDecode locals decodedData) mem buflen ↔ GbcFits buflen mem := by
  have h44 := le_of_isGeoNet hpath
  rw [readsWithin_decodeGeoNet]
  rcases decodeGN_cases mem locals.gndataIndication with ⟨haccepted, hok, -, hdata, -⟩ | ⟨hno, herr⟩
  · have hdata' : (gnOutcome locals mem).2.data = btpOffset mem := hdata
    rw [hdata']
    by_cases hG : (commonOf mem).headerType = GBC
    · have hoffset : btpOffset mem = 56 := if_pos hG
      rw [hoffset]
      constructor
      · intro hex _ _ _
        exact hex.2 hok
      · intro hfits
        have h60 := hfits hpath haccepted hG
        exact ⟨readsWithin_decodeGN _ (by omega) fun _ _ => by omega, fun _ => h60⟩
    · have hoffset : btpOffset mem = 40 := if_neg hG
      rw [hoffset]
      exact iff_of_true
        ⟨readsWithin_decodeGN _ (by omega) fun _ h => absurd h hG, fun _ => h44⟩
        fun _ _ h => absurd h hG
  · exact iff_of_true
      ⟨readsWithin_decodeGN _ (by omega) fun h => absurd h hno, fun h => absurd h herr⟩
      fun _ h => absurd h hno

theorem readsInside_of_path (hne : buflen ≠ 0) :
    ReadsInside asnDecode locals buflen decodedData mem ↔
      if (isGeoNet buflen .auto).value mem = true then
        ReadsWithin (decodeGeoNet asnDecode locals decodedData) mem buflen
      else 1 < buflen := by
  unfold ReadsInside decodeEtsi
  rw [if_neg hne, readsWithin_bind, readsWithin_ite, readsWithin_decodeFacilities]
  simp only [readsWithin_isGeoNet, true_and]

end Reads

/-- With the detection on, `decodeEtsi` reads inside its buffer exactly
when the buffer has not just one byte and an acceptable geo-broadcast
packet has at least 60. -/
theorem readsInside_iff {Msg : Type} (asnDecode : AsnDecode Msg) (locals : FrontendLocals)
    (buflen : ℕ) (decodedData : EtsiDecodedData Msg) (mem : Memory) :
    ReadsInside asnDecode locals buflen decodedData mem ↔ buflen ≠ 1 ∧ GbcFits buflen mem := by
  by_cases hne : buflen = 0
  · subst hne
    refine iff_of_true ?_ ⟨by decide, fun hpath => absurd (le_of_isGeoNet hpath) (by decide)⟩
    intro i hi
    exact absurd hi List.not_mem_nil
  rw [readsInside_of_path asnDecode locals decodedData hne]
  by_cases hpath : (isGeoNet buflen .auto).value mem = true
  · have h44 := le_of_isGeoNet hpath
    rw [if_pos hpath, readsWithin_geoNet_iff asnDecode locals decodedData hpath]
    exact ⟨fun h => ⟨by omega, h⟩, fun h => h.2⟩
  · rw [if_neg hpath]
    exact ⟨fun h => ⟨by omega, fun hyes => absurd hyes hpath⟩, fun h => by omega⟩

/-- A geo-broadcast packet: version 1, hop limits 1, BTP-B, port 2001 at
index 56, and a declared payload of `payload` bytes. -/
def gbcPacket (payload : UInt8) : Memory
  | 0 => 0x11
  | 3 => 1
  | 4 => 0x20
  | 5 => 0x40
  | 9 => payload
  | 10 => 1
  | 56 => 0x07
  | 57 => 0xd1
  | _ => 0

/-- A buffer of one byte, and 44 bytes of a geo-broadcast packet. -/
theorem not_readsInside :
    ¬ ReadsInside (fun _ _ _ _ => ⟨false, none⟩ : AsnDecode Unit) default 1
        ⟨none, none, none, none, none, none, none, none⟩ (fun _ => 0) ∧
      ¬ ReadsInside (fun _ _ _ _ => ⟨false, none⟩ : AsnDecode Unit) default 44
        ⟨none, none, none, none, none, none, none, none⟩ (gbcPacket 4) := by
  constructor
  · rw [readsInside_of_path _ _ _ (by decide), if_neg (by decide)]
    decide
  · have hpath : (isGeoNet 44 .auto).value (gbcPacket 4) = true := by decide
    rw [readsInside_of_path _ _ _ (by decide), if_pos hpath, readsWithin_geoNet_iff _ _ _ hpath]
    intro hfits
    have h60 := hfits hpath
      ⟨by decide, by decide, by decide, Or.inl (by decide)⟩ (by decide)
    exact absurd h60 (by decide)

/-! ## The slice handed to `asn_decode` -/

section Slice

variable (locals : FrontendLocals) (buflen : ℕ) (msgtype : MsgType) (mem : Memory)

/-- `decodeGN` and `decodeBTP` are run on the buffer and both succeed. -/
structure BothSucceed : Prop where
  nonempty : buflen ≠ 0
  path : (isGeoNet buflen msgtype).value mem = true
  lower : LowerLayersOk locals mem

/-- The payload starts behind the BTP header: 44 for a single-hop
broadcast packet, 60 for a geo-broadcast packet. -/
def payloadOffset : ℕ := if (commonOf mem).headerType = GBC then 60 else 44

/-- The slice lies inside the buffer, and its length is the declared one
less the four bytes of the BTP header. -/
def SliceInside : Prop :=
  payloadOffset mem + (btpOutcome locals mem).2.lenght.toNat ≤ buflen ∧
    (btpOutcome locals mem).2.lenght.toNat + 4 = (commonOf mem).payload.toNat

/-- What the packet declares: at least a BTP header, and no more than the
buffer holds behind the GeoNetworking headers. -/
def DeclaredFits : Prop :=
  4 ≤ (commonOf mem).payload.toNat ∧ btpOffset mem + (commonOf mem).payload.toNat ≤ buflen

variable {locals buflen msgtype mem}

/-- Where the slice starts and how long it is. -/
theorem btpOutcome_slice (h : LowerLayersOk locals mem) :
    (btpOutcome locals mem).2.data = payloadOffset mem ∧
      (btpOutcome locals mem).2.lenght = (commonOf mem).payload.toUInt32 - 4 := by
  rcases decodeGN_cases mem locals.gndataIndication with ⟨-, hok, -, hdata, hlenght⟩ | ⟨-, herr⟩
  · have hport : ((BtpHeader.removeHeader (gnOutcome locals mem).2.data).value
        mem).destinationPort = _ := rfl
    rcases decodeBTP_cases locals.btpDataIndication hport with
      ⟨-, -, -, -, hdata', hlenght'⟩ | ⟨-, hbtp⟩
    · constructor
      · rw [show (btpOutcome locals mem).2.data = _ from hdata',
          show (gnOutcome locals mem).2.data = _ from hdata, btpOffset, payloadOffset]
        split <;> rfl
      · rw [show (btpOutcome locals mem).2.lenght = _ from hlenght',
          show (gnOutcome locals mem).2.lenght = _ from hlenght]
    · exact absurd h.2 hbtp
  · exact absurd h.1 herr

/-- That slice is what `asn_decode` is called with. -/
theorem decodeEtsi_slice {Msg : Type} (asnDecode : AsnDecode Msg)
    (decodedData : EtsiDecodedData Msg) (h : BothSucceed locals buflen msgtype mem) :
    ∃ descriptor before, (decodeEtsi asnDecode locals buflen msgtype decodedData).value mem =
      (decodeWith asnDecode descriptor (payloadOffset mem)
        (btpOutcome locals mem).2.lenght.toNat before).value mem := by
  rw [value_decodeEtsi_geoNet asnDecode locals decodedData h.nonempty h.path,
    ← (btpOutcome_slice h.lower).1]
  rcases destPort_of_lowerLayersOk h.lower with hport | hport
  · obtain ⟨before, -, hvalue⟩ := value_decodeGeoNet_cam asnDecode decodedData h.lower hport
    exact ⟨_, before, hvalue⟩
  · obtain ⟨before, -, hvalue⟩ := value_decodeGeoNet_denm asnDecode decodedData h.lower hport
    exact ⟨_, before, hvalue⟩

/-- The length in 32-bit arithmetic, where it does not wrap and where it
does. -/
theorem lenght_toNat (h : LowerLayersOk locals mem) :
    (btpOutcome locals mem).2.lenght.toNat =
      if 4 ≤ (commonOf mem).payload.toNat then (commonOf mem).payload.toNat - 4
      else 4294967292 + (commonOf mem).payload.toNat := by
  have hlt := (commonOf mem).payload.toNat_lt
  rw [(btpOutcome_slice h).2, UInt32.toNat_sub, UInt16.toNat_toUInt32,
    show (4 : UInt32).toNat = 4 from rfl]
  split <;> omega

end Slice

/-- Whenever both lower layers succeed, `asn_decode` is called with the
slice behind the BTP header; it lies inside the buffer, with the declared
length less four, exactly when the declared length is at least four and
fits. -/
theorem sliceInside_iff {Msg : Type} (asnDecode : AsnDecode Msg) (locals : FrontendLocals)
    (buflen : ℕ) (msgtype : MsgType) (decodedData : EtsiDecodedData Msg) (mem : Memory)
    (h : BothSucceed locals buflen msgtype mem) :
    (∃ descriptor before, (decodeEtsi asnDecode locals buflen msgtype decodedData).value mem =
      (decodeWith asnDecode descriptor (payloadOffset mem)
        (btpOutcome locals mem).2.lenght.toNat before).value mem) ∧
      (SliceInside locals buflen mem ↔ DeclaredFits buflen mem) := by
  refine ⟨decodeEtsi_slice asnDecode decodedData h, ?_⟩
  have hlt := (commonOf mem).payload.toNat_lt
  have hoffset : payloadOffset mem = btpOffset mem + 4 := by
    unfold payloadOffset btpOffset
    split <;> rfl
  unfold SliceInside DeclaredFits
  rw [lenght_toNat h.lower, hoffset]
  split <;> omega

/-- Both layers accept the packet, whatever payload it declares. -/
theorem bothSucceed_gbcPacket (payload : UInt8) (h : payload ∈ [0, 4, 200]) :
    BothSucceed default 60 .auto (gbcPacket payload) := by
  have haccepted : HeadersAccepted (gbcPacket payload) := by
    simp only [List.mem_cons, List.not_mem_nil, or_false] at h
    rcases h with rfl | rfl | rfl <;>
      exact ⟨⟨Or.inl (by decide), by decide, by decide, Or.inl (by decide)⟩,
        Or.inl (by decide), Or.inr (by decide)⟩
  exact ⟨by decide, rfl, lowerLayersOk_iff.mpr haccepted⟩

/-- 60 bytes that declare a BTP header and nothing behind it. -/
theorem sliceInside_iff_emptyPayload :
    (∃ descriptor before, (decodeEtsi (fun _ _ _ _ => ⟨false, none⟩ : AsnDecode Unit) default 60
        .auto ⟨none, none, none, none, none, none, none, none⟩).value (gbcPacket 4) =
      (decodeWith (fun _ _ _ _ => ⟨false, none⟩) descriptor (payloadOffset (gbcPacket 4))
        (btpOutcome default (gbcPacket 4)).2.lenght.toNat before).value (gbcPacket 4)) ∧
      (SliceInside default 60 (gbcPacket 4) ↔ DeclaredFits 60 (gbcPacket 4)) :=
  sliceInside_iff _ default 60 .auto _ (gbcPacket 4) (bothSucceed_gbcPacket 4 (by decide))

/-- 60 bytes that declare 200 of payload, and 60 that declare none: the
slice ends behind the buffer, and its length wraps. -/
theorem not_sliceInside :
    BothSucceed default 60 .auto (gbcPacket 200) ∧
      ¬ SliceInside default 60 (gbcPacket 200) ∧
      BothSucceed default 60 .auto (gbcPacket 0) ∧
      (btpOutcome default (gbcPacket 0)).2.lenght.toNat = 4294967292 := by
  have h200 := bothSucceed_gbcPacket 200 (by decide)
  have h0 := bothSucceed_gbcPacket 0 (by decide)
  refine ⟨h200, ?_, h0, ?_⟩
  · unfold SliceInside
    rw [lenght_toNat h200.lower]
    decide
  · rw [lenght_toNat h0.lower]
    decide

end SLDM.Decoder
