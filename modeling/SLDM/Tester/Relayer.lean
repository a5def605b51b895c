/-
SLDM.Tester.Relayer — the relayer from UDP to AMQP of the test facilities.

A packet of the simulator starts with a `GNmetadata_t` of 24 bytes, in
network order: the station ID, the latitude and the longitude in tenths of
a microdegree, the GeoNetworking timestamp and padding. `relay` is a turn
of the loop of `relayer_main.cpp`, with the message `sendCAM_AMQP` makes.
The message carries the quadkey of the position at level 18 and the
timestamp as properties.

`ntohl` is unsigned, and so are the coordinates made of what it returns: a
longitude west of Greenwich becomes one east of 180 degrees, in the last
column of tiles (`tileX_of_west`).
-/
import SLDM.Client.OnMessage
import SLDM.Decoder.Headers
import SLDM.QuadKey.Tiles

namespace SLDM.Tester

open ByteReader Decoder QuadKey Client

/-! ## The message -/

/-- `put` of the properties of a message. -/
def put (name : String) (value : Scalar) (properties : List (String × Scalar)) :
    List (String × Scalar) :=
  properties.filter (·.1 ≠ name) ++ [(name, value)]

theorem lookup_put (name : String) (value : Scalar) (properties : List (String × Scalar))
    (name' : String) :
    (put name value properties).lookup name' =
      if name' = name then some value else properties.lookup name' := by
  induction properties with
  | nil => by_cases h : name' = name <;> simp [put, List.lookup_cons, h, beq_eq_false_iff_ne.mpr]
  | cons e properties ih =>
    obtain ⟨key, held⟩ := e
    rw [put] at ih ⊢
    by_cases hkey : key = name
    · subst hkey
      rw [List.filter_cons_of_neg (by simp), ih]
      by_cases h : name' = key
      · simp [h]
      · simp [h, List.lookup_cons, beq_eq_false_iff_ne.mpr h]
    · rw [List.filter_cons_of_pos (by simp [hkey]), List.cons_append, List.lookup_cons,
        List.lookup_cons]
      by_cases h : name' = key
      · simp [h, hkey]
      · rw [beq_eq_false_iff_ne.mpr h]
        exact ih

/-- A message for the broker. -/
structure Outgoing where
  body : List UInt8
  properties : List (String × Scalar)
  deriving DecidableEq, Repr

/-- `LatLonToQuadKey`, the same function in the relayer and in the S-LDM. -/
def latLonToQuadKey (mercatorY : ℚ → ℚ) (ts : QuadKeyTS) (latitude longitude : ℚ) : Key :=
  quadKey mercatorY ts.levelOfDetail latitude longitude

/-- `tilesys` in `sendCAM_AMQP`. The steps of the relayer's own scan, which
is never called, are smaller. -/
def tilesys : QuadKeyTS := QuadKeyTS.new.setLevelOfDetail 18

/-- `sendCAM_AMQP`, once the sender is ready. -/
def sendCamAmqp (mercatorY : ℚ → ℚ) (gnTstPropName : String) (buffer : List UInt8)
    (lat lon : ℚ) (gnTst : UInt32) : Outgoing where
  body := buffer
  properties :=
    put gnTstPropName (.long gnTst.toUInt64.toInt64)
      (put "quadkeys" (.string (String.ofList (latLonToQuadKey mercatorY tilesys lat lon))) [])

/-! ## The loop -/

/-- `GNmetadata_t`; the station ID is only printed. -/
structure GNmetadata where
  lat : UInt32
  lon : UInt32
  gnTimestamp : UInt32
  deriving DecidableEq, Repr

/-- The fields after `ntohl`. -/
def GNmetadata.read : Reader GNmetadata := do
  let lat ← memcpy32 8
  let lon ← memcpy32 12
  let gnTimestamp ← memcpy32 16
  return ⟨swap32bit lat, swap32bit lon, swap32bit gnTimestamp⟩

def metadata (packet : List UInt8) : GNmetadata :=
  GNmetadata.read.value fun i => packet.getD i 0

/-- `(double) ntohl(x) / 1e7`. -/
def degrees (x : UInt32) : ℚ := x.toNat / 10000000

/-- A turn of the loop on the bytes received; short packets are dropped. -/
def relay (mercatorY : ℚ → ℚ) (skipGN : Bool) (gnTstPropName : String) (packet : List UInt8) :
    Option Outgoing :=
  if packet.length < 40 then none
  else if skipGN && packet.length ≤ 68 then none
  else
    let gnmetadata := metadata packet
    some (sendCamAmqp mercatorY gnTstPropName (packet.drop (if skipGN then 68 else 24))
      (degrees gnmetadata.lat) (degrees gnmetadata.lon) gnmetadata.gnTimestamp)

/-! ## Where a packet comes from -/

/-- The tile of level 18 a packet is tagged with. -/
def tileX (packet : List UInt8) : ℕ := tile 18 ((degrees (metadata packet).lon + 180) / 360)

def tileY (mercatorY : ℚ → ℚ) (packet : List UInt8) : ℕ :=
  tile 18 (mercatorY (degrees (metadata packet).lat))

/-- The properties of a message that are strings. -/
def stringProperty (properties : List (String × Scalar)) (name : List Char) :
    Option (List Char) :=
  match properties.lookup (String.ofList name) with
  | some (.string value) => some value.toList
  | _ => none

theorem stringProperty_relay {mercatorY : ℚ → ℚ} {skipGN : Bool} {gnTstPropName : String}
    {packet : List UInt8} {m : Outgoing}
    (h : relay mercatorY skipGN gnTstPropName packet = some m) :
    stringProperty m.properties "quadkeys".toList =
      if gnTstPropName = "quadkeys" then none
      else some (quadKeyDigits (tileX packet) (tileY mercatorY packet) 18) := by
  rw [relay] at h
  split at h
  · cases h
  split at h
  · cases h
  cases h
  rw [stringProperty, String.ofList_toList]
  simp only [sendCamAmqp, lookup_put]
  by_cases hname : "quadkeys" = gnTstPropName
  · rw [if_pos hname, if_pos hname.symm]
  · simp only [if_neg hname, if_neg (Ne.symm hname), if_true, String.toList_ofList]
    rfl

/-- A longitude whose sign bit is set. -/
theorem tileX_of_west {packet : List UInt8} (h : 2 ^ 31 ≤ (metadata packet).lon.toNat) :
    tileX packet = 2 ^ 18 - 1 := by
  have hlon : (2147483648 : ℚ) ≤ (metadata packet).lon.toNat := by exact_mod_cast h
  have hcolumn : 2 ^ 18 - 1 ≤ tileX packet := by
    refine (le_tile_iff (by norm_num)).mpr ⟨by norm_num, ?_⟩
    rw [tileStart_eq, degrees]
    norm_num
    linarith
  have hlast := tile_lt 18 ((degrees (metadata packet).lon + 180) / 360)
  rw [tileX] at hcolumn ⊢
  omega

end SLDM.Tester
