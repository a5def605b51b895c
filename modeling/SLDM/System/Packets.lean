/-
SLDM.System.Packets — the service fed with packets.

The messages of `SLDM.System.Service` are CAMs that have been decoded. Here
the steps of the clients are the AMQP messages they receive, with what each
call of the handler finds left over in memory.

`packets_run` says when the difference does not matter: as long as every
packet is clean, the service does step by step what it does for the CAMs
the packets carry. One rejected packet ends that: depending on the
leftovers the handler goes wrong, or takes any CAM for the one received.
-/
import SLDM.Client.Packets
import SLDM.System.Service

namespace SLDM.System

open Store Client Decoder ByteReader Json Runs

/-- A step of the service, with the packets as they arrive. -/
inductive Arrival where
  | packet (client : AMQPClient) (env : Env) (left : Leftovers) (m : AmqpMessage)
  | collect (timeMilliseconds : ℚ) (now : UInt64)
  | terminate (session : Trigger.RestClient)
  | request (nowUs : UInt64) (e : Receive)

section

variable (haversineDist : Distance) (settings : Settings) (asn : AsnModule)

/-- One step; there is none where the handler's outcome is undefined. -/
def Service.receive (s : Service) : Arrival → Option Service
  | .packet client env left m =>
    match readMessage asn left m with
    | .ignored => some s
    | .cam cam => s.step haversineDist settings (.write (.message client env cam))
    | .undefined => none
  | .collect time now => s.step haversineDist settings (.write (.collect time now))
  | .terminate session => s.step haversineDist settings (.write (.terminate session))
  | .request nowUs e => s.step haversineDist settings (.request nowUs e)

/-- What an arrival stands for, whatever was left in memory, except that
the zones of a roadside unit have an address. -/
def carried : Arrival → List Event
  | .packet client env left m =>
    ((camOf asn left.zonesAddress m).map fun cam => .write (.message client env cam)).toList
  | .collect time now => [.write (.collect time now)]
  | .terminate session => [.write (.terminate session)]
  | .request nowUs e => [.request nowUs e]

end

/-- A packet that is not binary data, or is clean. -/
def Arrival.IsClean : Arrival → Prop
  | .packet _ _ _ ⟨.binary data, _⟩ => Clean data
  | _ => True

section Runs

variable {haversineDist : Distance} {settings : Settings} {asn : AsnModule}

/-- One clean arrival. -/
theorem receive_of_isClean (s : Service) {a : Arrival} (ha : a.IsClean) :
    s.receive haversineDist settings asn a =
      run (Service.step haversineDist settings) s (carried asn a) := by
  have hone (ev : Event) : run (Service.step haversineDist settings) s [ev] =
      s.step haversineDist settings ev := by
    rw [run_cons]
    cases s.step haversineDist settings ev <;> rfl
  cases a with
  | packet client env left m =>
    obtain ⟨body, properties⟩ := m
    cases body with
    | other => rfl
    | binary data =>
      rw [Service.receive, readMessage_of_clean asn left ha properties, carried]
      cases camOf asn left.zonesAddress ⟨.binary data, properties⟩ with
      | none => rfl
      | some cam => exact (hone _).symm
  | collect time now => exact (hone (.write (.collect time now))).symm
  | terminate session => exact (hone (.write (.terminate session))).symm
  | request nowUs e => exact (hone (.request nowUs e)).symm

theorem run_receive : ∀ (arrivals : List Arrival) (s : Service), (∀ a ∈ arrivals, a.IsClean) →
    run (Service.receive haversineDist settings asn) s arrivals =
      run (Service.step haversineDist settings) s (arrivals.flatMap (carried asn))
  | [], _, _ => rfl
  | a :: arrivals, s, h => by
      rw [run_cons, receive_of_isClean s (h a List.mem_cons_self), List.flatMap_cons, run_append]
      refine congrArg _ (funext fun s' => ?_)
      exact run_receive arrivals s' fun a' ha' => h a' (List.mem_cons_of_mem a ha')

/-- The leftovers of a call that finds a CAM on the stack. -/
def staleCam (behind : Memory) (m : CamMessage) : Leftovers where
  behind := behind
  locals := default
  type := if m.gnTimestamp.isSome then .cam else .camNoGN
  decodedMsg := some m.cam
  gnTimestamp := m.gnTimestamp.getD 0
  zonesAddress := 0

theorem readMessage_staleCam {data : List UInt8} {behind : Memory} (h : Rejected data behind)
    (m : CamMessage) :
    readMessage asn (staleCam behind m) ⟨.binary data, m.properties⟩ = .cam m := by
  rw [readMessage_of_rejected asn (staleCam behind m) h]
  obtain ⟨gnTimestamp, cam, properties⟩ := m
  cases gnTimestamp <;> simp [staleCam]

/-- The leftovers of a call that finds the type of a CAM and a pointer that
leads nowhere. -/
def wildPointer (behind : Memory) : Leftovers := ⟨behind, default, .cam, none, 0, 0⟩

theorem readMessage_wildPointer {data : List UInt8} {behind : Memory} (h : Rejected data behind)
    (properties : List (String × Scalar)) :
    readMessage asn (wildPointer behind) ⟨.binary data, properties⟩ = .undefined := by
  rw [readMessage_of_rejected asn (wildPointer behind) h]
  rfl

/-- As long as every packet is clean, the service does what it does for the
CAMs the packets carry, whatever is left in memory; the CAM of a roadside
unit with protected zones has their address for a heading. In any state a single
packet that a lower layer rejects may be the end of the program, or have
the effect of any CAM. -/
theorem packets_run (haversineDist : Distance) (settings : Settings) (asn : AsnModule)
    (s : Service) (arrivals : List Arrival) (hclean : ∀ a ∈ arrivals, a.IsClean) :
    run (Service.receive haversineDist settings asn) s arrivals =
        run (Service.step haversineDist settings) s (arrivals.flatMap (carried asn)) ∧
      ∀ (s' : Service) data behind client env, Rejected data behind →
        (∀ properties, ∃ left, left.behind = behind ∧
          s'.receive haversineDist settings asn
            (.packet client env left ⟨.binary data, properties⟩) = none) ∧
        ∀ m : CamMessage, ∃ left, left.behind = behind ∧
          s'.receive haversineDist settings asn
              (.packet client env left ⟨.binary data, m.properties⟩) =
            s'.step haversineDist settings (.write (.message client env m)) := by
  refine ⟨run_receive arrivals s hclean, fun s' data behind client env hrejected => ⟨?_, ?_⟩⟩
  · intro properties
    refine ⟨wildPointer behind, rfl, ?_⟩
    rw [Service.receive, readMessage_wildPointer hrejected]
  · intro m
    refine ⟨staleCam behind m, rfl, ?_⟩
    rw [Service.receive, readMessage_staleCam hrejected]

end Runs

/-- A decoder that takes the first byte of the payload for the station
ID. -/
def firstByte : AsnModule where
  decode descriptor mem data lenght :=
    match descriptor, lenght with
    | .asnDefCAM, _ + 1 =>
      ⟨true, some (.cam { (default : Cam) with stationID := (mem data).toUInt32 } false)⟩
    | _, _ => ⟨false, none⟩
  builds mem data lenght msg h := by
    cases lenght with
    | zero => cases h
    | succ lenght => cases h; exact ⟨_, _, rfl⟩
  reads descriptor mem mem' data lenght h := by
    cases descriptor <;> cases lenght
    · rfl
    · have hfirst : mem' data = mem data := h 0 (Nat.succ_pos _)
      simp only [hfirst]
    · rfl
    · rfl

/-- A single-hop broadcast packet for the CAM port, with one byte of
payload. -/
def camPacket : List UInt8 :=
  [0x11, 0, 0, 1, 0x20, 0x50, 0, 0, 0, 5, 1, 0] ++ List.replicate 28 0 ++ [0x07, 0xd1, 0, 0, 7]

theorem clean_camPacket : Clean camPacket where
  notOne := by decide
  accepted _ := ⟨⟨Or.inl (by decide), by decide, by decide, Or.inr (by decide)⟩,
    Or.inl (by decide), Or.inr (by decide)⟩
  headers _ _ hgbc := absurd hgbc (by decide)
  payload _ := ⟨by decide, by decide⟩

/-- The packet is received as the CAM of station 7. -/
theorem packets_run_camPacket :
    run (Service.receive (fun _ _ _ _ => 0) ⟨default, 100⟩ firstByte) (.initial none false [])
        [.packet default ⟨0, 0, ⟨0, fun _ => default⟩, default⟩ (wildPointer fun _ => 255)
          ⟨.binary camPacket, []⟩] =
      run (Service.step (fun _ _ _ _ => 0) ⟨default, 100⟩) (.initial none false [])
        [.write (.message default ⟨0, 0, ⟨0, fun _ => default⟩, default⟩
          ⟨some 0, { (default : Cam) with stationID := 7 }, []⟩)] :=
  (packets_run (fun _ _ _ _ => 0) ⟨default, 100⟩ firstByte (.initial none false []) _ fun a ha => by
    rw [List.mem_singleton.mp ha]
    exact clean_camPacket).1

end SLDM.System
