/-
SLDM.Decoder.FrontendTheorems — when `decodeEtsi` keeps its return
convention.

The convention a caller relies on is `Contract`: the code is
`ETSI_DECODER_OK` exactly when every layer that ran succeeded and the
output record is complete, i.e. `type` is one of the four supported
kinds and `decoded_msg` is the pointer `asn_decode` produced.

Two error exits break it: a GeoNetworking or BTP failure returns
`ETSI_DECODED_ERROR`, the first enumerator of another enumeration, whose
value is that of `ETSI_DECODER_OK`. `HeadersAccepted` is the condition on
the header bytes under which neither exit is taken, and
`decodeEtsi_contract_iff` says the convention holds exactly when the
Facilities-only path is taken or the headers are accepted.

The header lemmas (`decodeGN_cases`, `decodeBTP_cases`) say once what each
layer needs to succeed.
-/
import SLDM.Decoder.Frontend
import Mathlib.Tactic.IntervalCases
import Mathlib.Tactic.Tauto

namespace SLDM.Decoder

open ByteReader

/-! ## What each layer needs to succeed -/

/-- The lifetime base is two bits wide, so one of the four cases applies. -/
theorem decodeLT_isSome (lifeTime : UInt8) : (decodeLT lifeTime).isSome := by
  have hbase : (lifeTime &&& 0x03).toNat < 4 := by
    have h := UInt8.toNat_and lifeTime 0x03
    have hmod : lifeTime.toNat &&& 3 = lifeTime.toNat % 4 :=
      Nat.and_two_pow_sub_one_eq_mod lifeTime.toNat 2
    rw [h, show (0x03 : UInt8).toNat = 3 from rfl, hmod]
    omega
  unfold decodeLT
  simp only [← UInt8.toNat_inj, show (0 : UInt8).toNat = 0 from rfl,
    show (1 : UInt8).toNat = 1 from rfl, show (2 : UInt8).toNat = 2 from rfl,
    show (3 : UInt8).toNat = 3 from rfl]
  generalize (lifeTime &&& 0x03).toNat = base at hbase ⊢
  interval_cases base <;> simp

section Headers

variable (mem : Memory)

/-- The basic header of the packet. -/
abbrev basicOf : BasicHeader := (BasicHeader.removeHeader 0).value mem

/-- The common header of the packet. -/
abbrev commonOf : CommonHeader := (CommonHeader.removeHeader (0 + 4)).value mem

/-- Where the BTP header starts: after the geo-broadcast header (56) or
after the single-hop broadcast header (40). -/
def btpOffset : ℕ := if (commonOf mem).headerType = GBC then 56 else 40

/-- The GeoNetworking headers `decodeGN` lets through. -/
structure GnHeadersAccepted : Prop where
  version : (basicOf mem).version = gnPtotocolVersion ∨ (basicOf mem).version = 0
  notSecured : (basicOf mem).nextHeader ≠ 2
  hopLimit : (basicOf mem).remainingHopLimit ≤ (commonOf mem).maxHopLimit
  transport : (commonOf mem).headerType = GBC ∨
    ((commonOf mem).headerType = TSB ∧ (commonOf mem).headerSubType = 0)

/-- The headers both lower layers let through. -/
structure HeadersAccepted : Prop where
  geonet : GnHeadersAccepted mem
  port : ((BtpHeader.removeHeader (btpOffset mem)).value mem).destinationPort = CA_PORT ∨
    ((BtpHeader.removeHeader (btpOffset mem)).value mem).destinationPort = DEN_PORT
  upper : (commonOf mem).nextHeader = BTP_A ∨ (commonOf mem).nextHeader = BTP_B

end Headers

variable {mem : Memory} {di : GNDataIndication}

/-- `decodeGN` on a packet whose headers pass the checks before the
dispatch on the header type. -/
theorem value_decodeGN_of_checks {seconds : ℚ}
    (hv : ¬ ((basicOf mem).version ≠ gnPtotocolVersion ∧ (basicOf mem).version ≠ 0))
    (hs : (basicOf mem).nextHeader ≠ 2)
    (hlt : decodeLT (basicOf mem).lifeTime = some seconds)
    (hh : ¬ (commonOf mem).maxHopLimit < (basicOf mem).remainingHopLimit) :
    let di' : GNDataIndication :=
      { di with data := 12, gnRemainingLife := seconds,
                gnRemainingHL := (basicOf mem).remainingHopLimit.toUInt16.toInt16,
                upperProtocol := (commonOf mem).nextHeader,
                gnTraClass := (commonOf mem).trafficClass,
                gnType := (commonOf mem).headerType,
                lenght := (commonOf mem).payload.toUInt32 }
    (decodeGN 0 di).value mem =
      if (commonOf mem).headerType = GBC then
        (.gnOk, (processGBC di' (commonOf mem).headerSubType).value mem)
      else if (commonOf mem).headerType = TSB then
        if (commonOf mem).headerSubType = 0 then (.gnOk, (processSHB di').value mem)
        else (.gnTypeError, di')
      else (.gnTypeError, di') := by
  unfold decodeGN
  simp only [Reader.value_bind, Reader.value_ite]
  -- the kernel would unfold both sides to compare them step by step
  simp -implicitDefEqProofs only [if_neg hv, if_neg hs, hlt, Reader.value_bind,
    Reader.value_ite]
  simp only [if_neg hh]
  rfl

/-- What `decodeGN` does, once: either it lets the headers through and
leaves the payload behind them, or it reports an error. -/
theorem decodeGN_cases (mem : Memory) (di : GNDataIndication) :
    (GnHeadersAccepted mem ∧ ((decodeGN 0 di).value mem).1 = .gnOk ∧
      ((decodeGN 0 di).value mem).2.upperProtocol = (commonOf mem).nextHeader ∧
      ((decodeGN 0 di).value mem).2.data = btpOffset mem ∧
      ((decodeGN 0 di).value mem).2.lenght = (commonOf mem).payload.toUInt32) ∨
    (¬ GnHeadersAccepted mem ∧ ((decodeGN 0 di).value mem).1 ≠ .gnOk) := by
  obtain ⟨seconds, hlt⟩ := Option.isSome_iff_exists.mp (decodeLT_isSome (basicOf mem).lifeTime)
  by_cases hv : (basicOf mem).version ≠ gnPtotocolVersion ∧ (basicOf mem).version ≠ 0
  · refine Or.inr ⟨fun h => ?_, ?_⟩
    · rcases h.version with h | h
      · exact hv.1 h
      · exact hv.2 h
    · unfold decodeGN
      simp only [Reader.value_bind, Reader.value_ite]
      simp only [if_pos hv]
      simp
  by_cases hs : (basicOf mem).nextHeader = 2
  · refine Or.inr ⟨fun h => h.notSecured hs, ?_⟩
    unfold decodeGN
    simp only [Reader.value_bind, Reader.value_ite]
    simp only [if_neg hv, if_pos hs]
    simp
  by_cases hh : (commonOf mem).maxHopLimit < (basicOf mem).remainingHopLimit
  · refine Or.inr ⟨fun h => absurd h.hopLimit (UInt8.not_le.mpr hh), ?_⟩
    unfold decodeGN
    simp only [Reader.value_bind, Reader.value_ite]
    simp -implicitDefEqProofs only [if_neg hv, if_neg hs, hlt, Reader.value_bind,
      Reader.value_ite]
    simp only [if_pos hh]
    simp
  have hversion : (basicOf mem).version = gnPtotocolVersion ∨ (basicOf mem).version = 0 := by
    tauto
  have hhop := UInt8.not_lt.mp hh
  rw [value_decodeGN_of_checks hv hs hlt hh]
  by_cases hG : (commonOf mem).headerType = GBC
  · refine Or.inl ⟨⟨hversion, hs, hhop, Or.inl hG⟩, ?_⟩
    simp [hG, btpOffset, processGBC]
  by_cases hT : (commonOf mem).headerType = TSB
  · by_cases hsub : (commonOf mem).headerSubType = 0
    · refine Or.inl ⟨⟨hversion, hs, hhop, Or.inr ⟨hT, hsub⟩⟩, ?_⟩
      simp [hT, hsub, btpOffset, processSHB, show TSB ≠ GBC by decide]
    · refine Or.inr ⟨fun h => ?_, by simp [hT, hsub, show TSB ≠ GBC by decide]⟩
      rcases h.transport with h | h
      · exact hG h
      · exact hsub h.2
  · refine Or.inr ⟨fun h => ?_, by simp [hG, hT]⟩
    rcases h.transport with h | h
    · exact hG h
    · exact hT h.1

/-- What `decodeBTP` does, once: it needs a supported port and one of the
two BTP types, and then strips its four bytes. -/
theorem decodeBTP_cases {mem : Memory} {di : GNDataIndication} (bi : BTPDataIndication)
    {port : UInt16}
    (hport : ((BtpHeader.removeHeader di.data).value mem).destinationPort = port) :
    ((port = CA_PORT ∨ port = DEN_PORT) ∧
      (di.upperProtocol = BTP_A ∨ di.upperProtocol = BTP_B) ∧
      ((decodeBTP di bi).value mem).1 = .btpOk ∧
      ((decodeBTP di bi).value mem).2.destPort = port ∧
      ((decodeBTP di bi).value mem).2.data = di.data + 4 ∧
      ((decodeBTP di bi).value mem).2.lenght = di.lenght - 4) ∨
    (¬ ((port = CA_PORT ∨ port = DEN_PORT) ∧
        (di.upperProtocol = BTP_A ∨ di.upperProtocol = BTP_B)) ∧
      ((decodeBTP di bi).value mem).1 ≠ .btpOk) := by
  unfold decodeBTP
  simp only [Reader.value_bind, Reader.value_ite, Reader.value_pure, hport]
  by_cases hp : port ≠ CA_PORT ∧ port ≠ DEN_PORT
  · rw [if_pos hp]
    refine Or.inr ⟨fun h => ?_, by simp⟩
    rcases h.1 with h | h
    · exact hp.1 h
    · exact hp.2 h
  have hsupported : port = CA_PORT ∨ port = DEN_PORT := by tauto
  rw [if_neg hp]
  by_cases hA : di.upperProtocol = BTP_A
  · rw [if_pos hA]
    exact Or.inl ⟨hsupported, Or.inl hA, rfl, rfl, rfl, rfl⟩
  rw [if_neg hA]
  by_cases hB : di.upperProtocol = BTP_B
  · rw [if_pos hB]
    exact Or.inl ⟨hsupported, Or.inr hB, rfl, rfl, rfl, rfl⟩
  · rw [if_neg hB]
    refine Or.inr ⟨fun h => ?_, by simp⟩
    rcases h.2 with h | h
    · exact hA h
    · exact hB h

/-! ## The convention -/

section Convention

variable {Msg : Type} (asnDecode : AsnDecode Msg) (locals : FrontendLocals)
  (buflen : ℕ) (msgtype : MsgType) (decodedData : EtsiDecodedData Msg) (mem : Memory)

/-- What `decodeGN` answers inside `decodeEtsi`. -/
def gnOutcome : GnError × GNDataIndication := (decodeGN 0 locals.gndataIndication).value mem

/-- What `decodeBTP` answers on the record `decodeGN` filled. -/
def btpOutcome : BtpError × BTPDataIndication :=
  (decodeBTP (gnOutcome locals mem).2 locals.btpDataIndication).value mem

/-- The GeoNetworking and BTP layers both succeed. -/
def LowerLayersOk : Prop :=
  (gnOutcome locals mem).1 = .gnOk ∧ (btpOutcome locals mem).1 = .btpOk

/-- Every layer `decodeEtsi` runs on the buffer succeeds, and they make
out this kind of message and this structure. -/
inductive Decodes : EtsiDecodedType → Msg → Prop where
  | cam {msg : Msg} (hpath : (isGeoNet buflen msgtype).value mem = true)
      (hlower : LowerLayersOk locals mem)
      (hport : (btpOutcome locals mem).2.destPort = CA_PORT)
      (hasn : asnDecode .asnDefCAM mem (btpOutcome locals mem).2.data
        (btpOutcome locals mem).2.lenght.toNat = ⟨true, some msg⟩) : Decodes .cam msg
  | denm {msg : Msg} (hpath : (isGeoNet buflen msgtype).value mem = true)
      (hlower : LowerLayersOk locals mem)
      (hport : (btpOutcome locals mem).2.destPort = DEN_PORT)
      (hasn : asnDecode .asnDefDENM mem (btpOutcome locals mem).2.data
        (btpOutcome locals mem).2.lenght.toNat = ⟨true, some msg⟩) : Decodes .denm msg
  | camNoGN {msg : Msg} (hpath : (isGeoNet buflen msgtype).value mem = false)
      (hmessageID : mem 1 = CAM)
      (hasn : asnDecode .asnDefCAM mem 0 buflen = ⟨true, some msg⟩) : Decodes .camNoGN msg
  | denmNoGN {msg : Msg} (hpath : (isGeoNet buflen msgtype).value mem = false)
      (hmessageID : mem 1 = DENM)
      (hasn : asnDecode .asnDefDENM mem 0 buflen = ⟨true, some msg⟩) : Decodes .denmNoGN msg

/-- The return convention: the code is `ETSI_DECODER_OK` exactly when the
buffer is not empty, every layer that ran succeeded, and the kind and the
structure they made out are the ones stored. -/
def Contract : Prop :=
  ((decodeEtsi asnDecode locals buflen msgtype decodedData).value mem).1 = ETSI_DECODER_OK ↔
    buflen ≠ 0 ∧ ∃ kind msg, Decodes asnDecode locals buflen msgtype mem kind msg ∧
      ((decodeEtsi asnDecode locals buflen msgtype decodedData).value mem).2.type = some kind ∧
      ((decodeEtsi asnDecode locals buflen msgtype decodedData).value mem).2.decodedMsg
        = some (some msg)

end Convention

section Contract

variable {Msg : Type} {asnDecode : AsnDecode Msg} {locals : FrontendLocals}
  {buflen : ℕ} {msgtype : MsgType} {decodedData : EtsiDecodedData Msg}

/-- The two lower layers succeed exactly on accepted headers, whatever the
uninitialised records held. -/
theorem lowerLayersOk_iff : LowerLayersOk locals mem ↔ HeadersAccepted mem := by
  rcases decodeGN_cases mem locals.gndataIndication with
    ⟨hgeo, hok, hupper, hdata, -⟩ | ⟨hgeo, herr⟩
  · have hport : ((BtpHeader.removeHeader (gnOutcome locals mem).2.data).value
        mem).destinationPort =
        ((BtpHeader.removeHeader (btpOffset mem)).value mem).destinationPort := by
      rw [show (gnOutcome locals mem).2.data = btpOffset mem from hdata]
    have hupper' : (gnOutcome locals mem).2.upperProtocol = (commonOf mem).nextHeader := hupper
    rcases decodeBTP_cases locals.btpDataIndication hport with
      ⟨hp, hu, hbtp, -⟩ | ⟨hno, hbtp⟩
    · rw [hupper'] at hu
      exact ⟨fun _ => ⟨hgeo, hp, hu⟩, fun _ => ⟨hok, hbtp⟩⟩
    · rw [hupper'] at hno
      exact ⟨fun h => absurd h.2 hbtp, fun h => absurd ⟨h.port, h.upper⟩ hno⟩
  · exact ⟨fun h => absurd h.1 herr, fun h => absurd h.geonet hgeo⟩

/-- What is made out on the full ITS path. -/
theorem Decodes.geoNet {kind : EtsiDecodedType} {msg : Msg}
    (h : Decodes asnDecode locals buflen msgtype mem kind msg)
    (hpath : (isGeoNet buflen msgtype).value mem = true) :
    LowerLayersOk locals mem ∧
      ((kind = .cam ∧ (btpOutcome locals mem).2.destPort = CA_PORT ∧
          asnDecode .asnDefCAM mem (btpOutcome locals mem).2.data
            (btpOutcome locals mem).2.lenght.toNat = ⟨true, some msg⟩) ∨
        (kind = .denm ∧ (btpOutcome locals mem).2.destPort = DEN_PORT ∧
          asnDecode .asnDefDENM mem (btpOutcome locals mem).2.data
            (btpOutcome locals mem).2.lenght.toNat = ⟨true, some msg⟩)) := by
  cases h with
  | cam _ hlower hport hasn => exact ⟨hlower, Or.inl ⟨rfl, hport, hasn⟩⟩
  | denm _ hlower hport hasn => exact ⟨hlower, Or.inr ⟨rfl, hport, hasn⟩⟩
  | camNoGN hpath' _ _ => rw [hpath] at hpath'; cases hpath'
  | denmNoGN hpath' _ _ => rw [hpath] at hpath'; cases hpath'

/-- What is made out on the Facilities-only path. -/
theorem Decodes.facilities {kind : EtsiDecodedType} {msg : Msg}
    (h : Decodes asnDecode locals buflen msgtype mem kind msg)
    (hpath : (isGeoNet buflen msgtype).value mem = false) :
    (kind = .camNoGN ∧ mem 1 = CAM ∧
        asnDecode .asnDefCAM mem 0 buflen = ⟨true, some msg⟩) ∨
      (kind = .denmNoGN ∧ mem 1 = DENM ∧
        asnDecode .asnDefDENM mem 0 buflen = ⟨true, some msg⟩) := by
  cases h with
  | cam hpath' _ _ _ => rw [hpath] at hpath'; cases hpath'
  | denm hpath' _ _ _ => rw [hpath] at hpath'; cases hpath'
  | camNoGN _ hid hasn => exact Or.inl ⟨rfl, hid, hasn⟩
  | denmNoGN _ hid hasn => exact Or.inr ⟨rfl, hid, hasn⟩

/-- The destination port after a successful BTP layer is a supported one. -/
theorem destPort_of_lowerLayersOk (h : LowerLayersOk locals mem) :
    (btpOutcome locals mem).2.destPort = CA_PORT ∨
      (btpOutcome locals mem).2.destPort = DEN_PORT := by
  have hport : ((BtpHeader.removeHeader (gnOutcome locals mem).2.data).value
      mem).destinationPort = _ := rfl
  rcases decodeBTP_cases locals.btpDataIndication hport with ⟨hp, -, -, hdest, -⟩ | ⟨-, hbtp⟩
  · rw [show (btpOutcome locals mem).2.destPort = _ from hdest]; exact hp
  · exact absurd h.2 hbtp

/-- The shared tail: the code says whether `asn_decode` produced a
structure, and then that structure is stored; the kind is untouched. -/
theorem decodeWith_spec (asnDecode : AsnDecode Msg) (descriptor : AsnTypeDescriptor)
    (data lenght : ℕ) (decodedData : EtsiDecodedData Msg) (mem : Memory) :
    let out := (decodeWith asnDecode descriptor data lenght decodedData).value mem
    out.2.type = decodedData.type ∧
      ((∃ msg, asnDecode descriptor mem data lenght = ⟨true, some msg⟩ ∧
          out.1 = ETSI_DECODER_OK ∧ out.2.decodedMsg = some (some msg)) ∨
        ((∀ msg, asnDecode descriptor mem data lenght ≠ ⟨true, some msg⟩) ∧
          out.1 ≠ ETSI_DECODER_OK)) := by
  simp only [decodeWith, Reader.value]
  generalize asnDecode descriptor mem data lenght = result
  rcases result with ⟨rcOk, decoded⟩
  cases rcOk with
  | false => exact ⟨rfl, Or.inr ⟨by simp, by simp [ETSI_DECODER_ERROR, ETSI_DECODER_OK]⟩⟩
  | true =>
    cases decoded with
    | none => exact ⟨rfl, Or.inr ⟨by simp, by simp [ETSI_DECODER_ERROR, ETSI_DECODER_OK]⟩⟩
    | some msg => exact ⟨rfl, Or.inl ⟨msg, rfl, rfl, rfl⟩⟩

/-- A tail call meets the convention when the kind is set beforehand and
the layers succeed exactly when `asn_decode` does. -/
theorem contract_of_tail {descriptor : AsnTypeDescriptor} {data lenght : ℕ}
    {kind : EtsiDecodedType} {before : EtsiDecodedData Msg} (hne : buflen ≠ 0)
    (hvalue : (decodeEtsi asnDecode locals buflen msgtype decodedData).value mem =
      (decodeWith asnDecode descriptor data lenght before).value mem)
    (hkind : before.type = some kind)
    (hlayers : ∀ kind' msg, Decodes asnDecode locals buflen msgtype mem kind' msg ↔
      kind' = kind ∧ asnDecode descriptor mem data lenght = ⟨true, some msg⟩) :
    Contract asnDecode locals buflen msgtype decodedData mem := by
  have hspec := decodeWith_spec asnDecode descriptor data lenght before mem
  unfold Contract
  rw [hvalue]
  rcases hspec with ⟨htype, ⟨msg, hasn, hok, hmsg⟩ | ⟨hasn, hcode⟩⟩
  · refine ⟨fun _ => ⟨hne, kind, msg, (hlayers kind msg).mpr ⟨rfl, hasn⟩, ?_, hmsg⟩, fun _ => hok⟩
    rw [htype, hkind]
  · refine ⟨fun h => absurd h hcode, ?_⟩
    intro hex
    obtain ⟨-, kind', msg, hdec, -⟩ := hex
    exact absurd ((hlayers kind' msg).mp hdec).2 (hasn msg)

/-- An exit with an error code meets the convention when some layer failed. -/
theorem contract_of_error (hcode :
      ((decodeEtsi asnDecode locals buflen msgtype decodedData).value mem).1 ≠ ETSI_DECODER_OK)
    (hlayers : ∀ kind msg, ¬ Decodes asnDecode locals buflen msgtype mem kind msg) :
    Contract asnDecode locals buflen msgtype decodedData mem := by
  refine ⟨fun h => absurd h hcode, ?_⟩
  intro hex
  obtain ⟨-, kind, msg, hdec, -⟩ := hex
  exact absurd hdec (hlayers kind msg)

/-! ### The two paths -/

theorem value_decodeEtsi_geoNet (asnDecode : AsnDecode Msg) (locals : FrontendLocals)
    (decodedData : EtsiDecodedData Msg) (hne : buflen ≠ 0)
    (hpath : (isGeoNet buflen msgtype).value mem = true) :
    (decodeEtsi asnDecode locals buflen msgtype decodedData).value mem =
      (decodeGeoNet asnDecode locals decodedData).value mem := by
  unfold decodeEtsi
  simp only [if_neg hne, Reader.value_bind, hpath, if_true]

theorem value_decodeEtsi_facilities (asnDecode : AsnDecode Msg) (locals : FrontendLocals)
    (decodedData : EtsiDecodedData Msg) (hne : buflen ≠ 0)
    (hpath : (isGeoNet buflen msgtype).value mem = false) :
    (decodeEtsi asnDecode locals buflen msgtype decodedData).value mem =
      (decodeFacilities asnDecode buflen decodedData).value mem := by
  unfold decodeEtsi
  simp only [if_neg hne, Reader.value_bind, hpath, Bool.false_eq_true, if_false]

/-- A failure of a lower layer returns the value of `ETSI_DECODED_ERROR`,
and leaves the output record alone. -/
theorem value_decodeGeoNet_rejected (h : ¬ LowerLayersOk locals mem) :
    (decodeGeoNet asnDecode locals decodedData).value mem = (ETSI_DECODER_OK, decodedData) := by
  unfold decodeGeoNet
  simp only [Reader.value_bind, Reader.value_ite]
  by_cases hgn : (gnOutcome locals mem).1 = .gnOk
  · have hbtp : (btpOutcome locals mem).1 ≠ .btpOk := fun hb => h ⟨hgn, hb⟩
    simp only [gnOutcome] at hgn
    simp only [btpOutcome, gnOutcome] at hbtp
    simp only [hgn, ne_eq, not_true_eq_false, if_false, hbtp, not_false_eq_true, if_true]
    rfl
  · simp only [gnOutcome] at hgn
    simp only [ne_eq, hgn, not_false_eq_true, if_true]
    rfl

/-- With the lower layers through, port 2001 leads to the CAM tail. -/
theorem value_decodeGeoNet_cam (asnDecode : AsnDecode Msg) (decodedData : EtsiDecodedData Msg)
    (h : LowerLayersOk locals mem)
    (hport : (btpOutcome locals mem).2.destPort = CA_PORT) :
    ∃ before : EtsiDecodedData Msg, before.type = some .cam ∧
      (decodeGeoNet asnDecode locals decodedData).value mem =
        (decodeWith asnDecode .asnDefCAM (btpOutcome locals mem).2.data
          (btpOutcome locals mem).2.lenght.toNat before).value mem := by
  obtain ⟨hgn, hbtp⟩ := h
  simp only [btpOutcome, gnOutcome] at hgn hbtp hport
  unfold decodeGeoNet
  simp only [Reader.value_bind, hgn, ne_eq, not_true_eq_false, if_false, hbtp, hport, if_true]
  exact ⟨_, rfl, rfl⟩

/-- With the lower layers through, port 2002 leads to the DENM tail. -/
theorem value_decodeGeoNet_denm (asnDecode : AsnDecode Msg) (decodedData : EtsiDecodedData Msg)
    (h : LowerLayersOk locals mem)
    (hport : (btpOutcome locals mem).2.destPort = DEN_PORT) :
    ∃ before : EtsiDecodedData Msg, before.type = some .denm ∧
      (decodeGeoNet asnDecode locals decodedData).value mem =
        (decodeWith asnDecode .asnDefDENM (btpOutcome locals mem).2.data
          (btpOutcome locals mem).2.lenght.toNat before).value mem := by
  obtain ⟨hgn, hbtp⟩ := h
  have hne : DEN_PORT ≠ CA_PORT := by decide
  simp only [btpOutcome, gnOutcome] at hgn hbtp hport
  unfold decodeGeoNet
  simp only [Reader.value_bind, hgn, ne_eq, not_true_eq_false, if_false, hbtp, hport, hne, if_true]
  exact ⟨_, rfl, rfl⟩

/-- The convention on the full ITS path, headers accepted. -/
theorem contract_geoNet (hne : buflen ≠ 0) (hpath : (isGeoNet buflen msgtype).value mem = true)
    (hok : LowerLayersOk locals mem) :
    Contract asnDecode locals buflen msgtype decodedData mem := by
  have hports : DEN_PORT ≠ CA_PORT := by decide
  rcases destPort_of_lowerLayersOk hok with hport | hport
  · obtain ⟨before, hkind, hvalue⟩ := value_decodeGeoNet_cam asnDecode decodedData hok hport
    rw [← value_decodeEtsi_geoNet asnDecode locals decodedData hne hpath] at hvalue
    refine contract_of_tail hne hvalue hkind fun kind msg => ⟨fun hdec => ?_, ?_⟩
    · obtain ⟨-, ⟨rfl, -, hasn⟩ | ⟨-, hport', -⟩⟩ := hdec.geoNet hpath
      · exact ⟨rfl, hasn⟩
      · exact absurd (hport'.symm.trans hport) hports
    · intro hex
      obtain ⟨rfl, hasn⟩ := hex
      exact .cam hpath hok hport hasn
  · obtain ⟨before, hkind, hvalue⟩ := value_decodeGeoNet_denm asnDecode decodedData hok hport
    rw [← value_decodeEtsi_geoNet asnDecode locals decodedData hne hpath] at hvalue
    refine contract_of_tail hne hvalue hkind fun kind msg => ⟨fun hdec => ?_, ?_⟩
    · obtain ⟨-, ⟨-, hport', -⟩ | ⟨rfl, -, hasn⟩⟩ := hdec.geoNet hpath
      · exact absurd (hport.symm.trans hport') hports
      · exact ⟨rfl, hasn⟩
    · intro hex
      obtain ⟨rfl, hasn⟩ := hex
      exact .denm hpath hok hport hasn

/-- The convention on the Facilities-only path. -/
theorem contract_facilities (hne : buflen ≠ 0)
    (hpath : (isGeoNet buflen msgtype).value mem = false) :
    Contract asnDecode locals buflen msgtype decodedData mem := by
  have hvalue := value_decodeEtsi_facilities asnDecode locals decodedData hne hpath
  have hids : DENM ≠ CAM := by decide
  simp only [decodeFacilities, Reader.value_bind, Reader.value_u8] at hvalue
  by_cases hcam : mem 1 = CAM
  · have hvalid : isEnumValidEtsiMessage CAM ≠ 0 := by decide
    simp only [hcam, hvalid, if_true, ne_eq, not_false_eq_true] at hvalue
    refine contract_of_tail hne hvalue rfl fun kind msg => ⟨fun hdec => ?_, ?_⟩
    · rcases hdec.facilities hpath with ⟨rfl, -, hasn⟩ | ⟨-, hid, -⟩
      · exact ⟨rfl, hasn⟩
      · exact absurd (hid.symm.trans hcam) hids
    · intro hex
      obtain ⟨rfl, hasn⟩ := hex
      exact .camNoGN hpath hcam hasn
  by_cases hdenm : mem 1 = DENM
  · have hvalid : isEnumValidEtsiMessage DENM ≠ 0 := by decide
    simp only [hdenm, hids, hvalid, if_true, if_false, ne_eq, not_false_eq_true] at hvalue
    refine contract_of_tail hne hvalue rfl fun kind msg => ⟨fun hdec => ?_, ?_⟩
    · rcases hdec.facilities hpath with ⟨-, hid, -⟩ | ⟨rfl, -, hasn⟩
      · exact absurd hid hcam
      · exact ⟨rfl, hasn⟩
    · intro hex
      obtain ⟨rfl, hasn⟩ := hex
      exact .denmNoGN hpath hdenm hasn
  · have hinvalid : isEnumValidEtsiMessage (mem 1) = 0 := by
      simp only [isEnumValidEtsiMessage, if_neg hdenm, if_neg hcam]
    simp only [hinvalid, ne_eq, not_true_eq_false, if_false] at hvalue
    refine contract_of_error (by rw [hvalue]; simp [ETSI_DECODER_ERROR, ETSI_DECODER_OK])
      fun kind msg hdec => ?_
    rcases hdec.facilities hpath with ⟨-, hid, -⟩ | ⟨-, hid, -⟩
    · exact hcam hid
    · exact hdenm hid

/-- A rejected header breaks the convention: the code is
`ETSI_DECODER_OK` and no layer above ran. -/
theorem not_contract_of_rejected (hne : buflen ≠ 0)
    (hpath : (isGeoNet buflen msgtype).value mem = true) (h : ¬ HeadersAccepted mem) :
    ¬ Contract asnDecode locals buflen msgtype decodedData mem := by
  intro hcontract
  have hlower : ¬ LowerLayersOk locals mem := fun hok => h (lowerLayersOk_iff.mp hok)
  have hvalue := value_decodeEtsi_geoNet asnDecode locals decodedData hne hpath
  rw [value_decodeGeoNet_rejected hlower] at hvalue
  obtain ⟨-, kind, msg, hdec, -⟩ := hcontract.mp (by rw [hvalue])
  exact hlower (hdec.geoNet hpath).1

end Contract

/-! ## When the convention holds -/

/-- `decodeEtsi` keeps its return convention exactly on the empty buffer,
on the Facilities-only path, and on full ITS messages whose headers the
GeoNetworking and BTP layers accept. -/
theorem decodeEtsi_contract_iff {Msg : Type} (asnDecode : AsnDecode Msg)
    (locals : FrontendLocals) (buflen : ℕ) (msgtype : MsgType)
    (decodedData : EtsiDecodedData Msg) (mem : Memory) :
    Contract asnDecode locals buflen msgtype decodedData mem ↔
      buflen = 0 ∨ (isGeoNet buflen msgtype).value mem = false ∨ HeadersAccepted mem := by
  by_cases hne : buflen = 0
  · refine ⟨fun _ => Or.inl hne, fun _ => ?_⟩
    unfold Contract decodeEtsi
    simp [hne, ETSI_DECODER_ERROR, ETSI_DECODER_OK]
  cases hpath : (isGeoNet buflen msgtype).value mem with
  | false => exact ⟨fun _ => Or.inr (Or.inl rfl), fun _ => contract_facilities hne hpath⟩
  | true =>
    constructor
    · intro hcontract
      by_contra hno
      exact not_contract_of_rejected hne hpath (fun h => hno (Or.inr (Or.inr h))) hcontract
    · intro hor
      rcases hor with h | h | h
      · exact absurd h hne
      · cases h
      · exact contract_geoNet hne hpath (lowerLayersOk_iff.mpr h)

/-- A 60-byte buffer whose first byte announces protocol version 2. -/
def versionTwoPacket : Memory := fun i => if i = 0 then 0x20 else 0

/-- On that buffer `decodeEtsi` reports success although nothing was
decoded: the convention fails. -/
theorem decodeEtsi_contract_versionTwo :
    ¬ Contract (fun _ _ _ _ => ⟨false, none⟩ : AsnDecode Unit) default 60 .auto
      ⟨none, none, none, none, none, none, none, none⟩ versionTwoPacket := by
  refine not_contract_of_rejected (by decide) (by decide) fun h => ?_
  rcases h.geonet.version with hv | hv <;> exact absurd hv (by decide)

end SLDM.Decoder
