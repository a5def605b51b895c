/-
SLDM.Options.StructOptions — the members of `struct options` beside the
area, and what `parse_options` does to them.

Most cases of the `switch` set one member from one argument. They differ
in the member, in how the argument is read and in the message of a
failure; `row` lists these, and `Reading.read` is the code they share. The
options of the additional AMQP clients have a state of their own:
`--amqp-enable-additionals` allocates the clients, and each list after it
fills one field of all of them.

`otherOptions` makes the whole a parameter of `parseOptions`. A `malloc`
that fails is left out, and so is what is printed on the way. As in
`ParseOptions`, a `double` is read as a rational: `nan` and `inf`, which
`strtod` takes too, are not among the numbers of a line.
-/
import SLDM.Options.BrokerLists
import SLDM.Options.ParseOptions

namespace SLDM.Options

open Lines Decimal

/-! ## struct options -/

/-- The types of the members: those of a broker's fields, and `double`. -/
inductive MemberType
  | field (type : ConfigType)
  | double
deriving DecidableEq, Repr

/-- What a member of a type holds. -/
abbrev MemberType.Value : MemberType → Type
  | .field type => type.Value
  | .double => ℚ

/-- The members, without the area, its factors, the QuadKey filter and the
additional clients. -/
inductive Member
  | crossBorderTrigger
  | msRestAddr
  | msRestPort
  | leftIndicatorTrgEnable
  | extLightsHijackEnable
  | interopHijackEnable
  | msRestPeriodicity
  | gnTimestampProperty
  | vehvizNodejsAddr
  | vehvizNodejsPort
  | vehvizWebInterfacePort
  | logfileName
  | amqpBrokerOne (field : ConfigField)
  | contextRadius
  | vehvizUpdateIntervalSec
  | indicatorTrgManEnabled
  | ageCheckEnabled
  | odJsonInterfaceEnabled
  | odJsonInterfacePort
deriving DecidableEq, Repr

/-- Their types. -/
def Member.type : Member → MemberType
  | .crossBorderTrigger => .field .bool
  | .msRestAddr => .field .optionsString
  | .msRestPort => .field .long
  | .leftIndicatorTrgEnable => .field .bool
  | .extLightsHijackEnable => .field .bool
  | .interopHijackEnable => .field .bool
  | .msRestPeriodicity => .double
  | .gnTimestampProperty => .field .optionsString
  | .vehvizNodejsAddr => .field .optionsString
  | .vehvizNodejsPort => .field .long
  | .vehvizWebInterfacePort => .field .long
  | .logfileName => .field .optionsString
  | .amqpBrokerOne field => .field field.type
  | .contextRadius => .double
  | .vehvizUpdateIntervalSec => .double
  | .indicatorTrgManEnabled => .field .bool
  | .ageCheckEnabled => .field .bool
  | .odJsonInterfaceEnabled => .field .bool
  | .odJsonInterfacePort => .field .long

/-- `struct options`. `amqpBrokerX` is the array of the additional
clients, of which the first `numAmqpXEnabled` are allocated. -/
structure StructOptions where
  member : (m : Member) → m.type.Value
  numAmqpXEnabled : ℕ
  amqpBrokerX : ℕ → BrokerOptions

/-- The options of the main client. -/
def StructOptions.amqpBrokerOne (o : StructOptions) : BrokerOptions :=
  fun field => o.member (.amqpBrokerOne field)

def StructOptions.assign (o : StructOptions) (m : Member) (v : m.type.Value) : StructOptions :=
  { o with member := Function.update o.member m v }

@[simp] theorem StructOptions.member_assign_self (o : StructOptions) (m : Member)
    (v : m.type.Value) : (o.assign m v).member m = v := by
  simp only [StructOptions.assign, Function.update_self]

theorem StructOptions.member_assign_of_ne (o : StructOptions) {m m' : Member} (h : m' ≠ m)
    (v : m.type.Value) : (o.assign m v).member m' = o.member m' := by
  simp only [StructOptions.assign, Function.update_of_ne h]

/-! ## options_initialize -/

/-- `broker_options_inizialize`. -/
def brokerOptionsInitialize : BrokerOptions := fun field =>
  match field with
  | .amqpUsername | .amqpPassword | .brokerUrl | .brokerTopic => optionsStringDeclare
  | .amqpReconnect | .amqpAllowSasl | .amqpAllowInsecure
  | .amqpReconnectAfterLocalTimeoutExpired => false
  | .amqpIdleTimeout => (-1 : ℤ)

/-- The value a member starts with. -/
def initialMember : (m : Member) → m.type.Value
  | .crossBorderTrigger => false
  | .msRestAddr => optionsStringDeclare
  | .msRestPort => (8000 : ℤ)
  | .leftIndicatorTrgEnable => false
  | .extLightsHijackEnable => false
  | .interopHijackEnable => false
  | .msRestPeriodicity => (1 : ℚ)
  | .gnTimestampProperty => optionsStringDeclare
  | .vehvizNodejsAddr => optionsStringDeclare
  | .vehvizNodejsPort => (48110 : ℤ)
  | .vehvizWebInterfacePort => (8080 : ℤ)
  | .logfileName => optionsStringDeclare
  | .amqpBrokerOne field => brokerOptionsInitialize field
  | .contextRadius => (150 : ℚ)
  | .vehvizUpdateIntervalSec => (1 / 2 : ℚ)
  | .indicatorTrgManEnabled => true
  | .ageCheckEnabled => true
  | .odJsonInterfaceEnabled => false
  | .odJsonInterfacePort => (49000 : ℤ)

/-- The options before the first argument is read. No client is allocated
yet. -/
def structOptionsInitialize : StructOptions :=
  { member := initialMember
    numAmqpXEnabled := 0
    amqpBrokerX := fun _ => brokerOptionsInitialize }

/-! ## Reading an argument -/

/-- How the program ends: after `print_short_info_err`, or at once with
`EXIT_FAILURE`. -/
inductive Ending
  | shortInfo (message : String)
  | failure (message : String)
deriving DecidableEq, Repr

/-- `Exit` does not tell the two apart. -/
def Ending.exit : Ending → Exit
  | .shortInfo message => .shortInfo message
  | .failure message => .shortInfo message

/-- The digits `strtol` finds. Without any it leaves `sPtr` at the start
of the argument. -/
def strtolDigits (s : Text) : Text :=
  (splitSign (s.dropWhile isSpace)).2.takeWhile Char.isDigit

/-- `strtol` sets `errno` when the number is not a `long`. -/
def strtolErrno (s : Text) : Bool :=
  let n : ℤ := Nat.ofDigitChars 10 (strtolDigits s) 0
  let v := if (splitSign (s.dropWhile isSpace)).1 then -n else n
  decide (v < longMin ∨ longMax < v)

/-- The message of a number without digits. -/
def noDigit (option : String) : Ending :=
  .shortInfo ("Cannot find any digit in the specified value (" ++ option ++ ").\n")

/-- A case of the `switch` that sets a member of a type: to a constant, to
`false` if it is not `false` yet, to a string nothing was stored in, or to
a number in a range. -/
inductive Reading : MemberType → Type
  | set (value : Bool) : Reading (.field .bool)
  | clearOnce (message : String) : Reading (.field .bool)
  | push (message : Text → String) : Reading (.field .optionsString)
  | long (option message : String) (accepts : ℤ → Bool) : Reading (.field .long)
  | double (option message : String) (accepts : ℚ → Bool) : Reading .double

/-- The new value of the member. `getopt_long` does not hand out an option
that requires an argument without one. -/
def Reading.read (r : NumberReader) : {type : MemberType} → Reading type → type.Value →
    Option Text → Except Ending type.Value
  | _, .set value, _, _ => .ok value
  | _, .clearOnce message, old, _ =>
    if old = false then .error (.shortInfo message) else .ok false
  | _, .push message, old, some optarg =>
    match optionsStringPush old optarg with
    | (true, s) => .ok s
    | (false, _) => .error (.shortInfo (message optarg))
  | _, .long option message accepts, _, some optarg =>
    if strtolDigits optarg = [] then .error (noDigit option)
    else if strtolErrno optarg || !accepts (strtol optarg) then .error (.shortInfo message)
    else .ok (strtol optarg)
  | _, .double option message accepts, _, some optarg =>
    match r.strtod optarg with
    | none => .error (noDigit option)
    | some (v, _) =>
      if r.strtodErrno optarg || !accepts v then .error (.shortInfo message) else .ok v
  | _, _, _, none => .error (.shortInfo "")

/-- The numbers accepted for a port. -/
def isPort (v : ℤ) : Bool := decide (1 ≤ v ∧ v ≤ 65535)

/-! ## The options -/

/-- The options beside those of `Opt`, by their long names. -/
inductive OptionName
  | crossBorderTrigger
  | brokerUrl
  | brokerQueue
  | msRestAddress
  | msRestPort
  | vehvizNodejsAddress
  | vehvizNodejsPort
  | vehvizWebPort
  | logFileName
  | contextRadius
  | disableAgeCheck
  | enableOnDemandRequests
  | setOnDemandJsonPort
  | amqpMainUsername
  | amqpMainPassword
  | amqpMainReconnect
  | amqpMainAllowSasl
  | amqpMainAllowPlain
  | vehvizUpdateInterval
  | indicatorTrgmanDisable
  | amqpMainIdleTimeout
  | amqpMainReconnLocalTimeoutExp
  | enableLeftIndicatorTrigger
  | msRestPeriodicity
  | gnTimestampProperty
  | enableExtLightsHijack
  | enableInteropHijack
  | amqpEnableAdditionals
  | amqpAdditionals (field : ConfigField)
deriving DecidableEq, Repr

/-- `long_opts`. -/
def longOpts : List (String × OptionName) :=
  [("cross-border-trigger", .crossBorderTrigger),
   ("broker-url", .brokerUrl),
   ("broker-queue", .brokerQueue),
   ("ms-rest-address", .msRestAddress),
   ("ms-rest-port", .msRestPort),
   ("vehviz-nodejs-address", .vehvizNodejsAddress),
   ("vehviz-nodejs-port", .vehvizNodejsPort),
   ("vehviz-web-port", .vehvizWebPort),
   ("log-file-name", .logFileName),
   ("amqp-main-username", .amqpMainUsername),
   ("amqp-main-password", .amqpMainPassword),
   ("amqp-main-reconnect", .amqpMainReconnect),
   ("amqp-main-allow-sasl", .amqpMainAllowSasl),
   ("amqp-main-allow-plain", .amqpMainAllowPlain),
   ("context-radius", .contextRadius),
   ("disable-age-check", .disableAgeCheck),
   ("enable-on-demand-requests", .enableOnDemandRequests),
   ("set-on-demand-json-port", .setOnDemandJsonPort),
   ("vehviz-update-interval", .vehvizUpdateInterval),
   ("indicator-trgman-disable", .indicatorTrgmanDisable),
   ("amqp-main-idle-timeout", .amqpMainIdleTimeout),
   ("amqp-main-reconn-local-timeout-exp", .amqpMainReconnLocalTimeoutExp),
   ("enable-left-indicator-trigger", .enableLeftIndicatorTrigger),
   ("ms-rest-periodicity", .msRestPeriodicity),
   ("gn-timestamp-property", .gnTimestampProperty),
   ("enable-ext-lights-hijack", .enableExtLightsHijack),
   ("enable-interop-hijack", .enableInteropHijack),
   ("amqp-enable-additionals", .amqpEnableAdditionals),
   ("amqp-additionals-url", .amqpAdditionals .brokerUrl),
   ("amqp-additionals-queue", .amqpAdditionals .brokerTopic),
   ("amqp-additionals-username", .amqpAdditionals .amqpUsername),
   ("amqp-additionals-password", .amqpAdditionals .amqpPassword),
   ("amqp-additionals-reconnect", .amqpAdditionals .amqpReconnect),
   ("amqp-additionals-allow-sasl", .amqpAdditionals .amqpAllowSasl),
   ("amqp-additionals-allow-plain", .amqpAdditionals .amqpAllowInsecure),
   ("amqp-additionals-idle-timeout", .amqpAdditionals .amqpIdleTimeout),
   ("amqp-additionals-reconn-local-timeout-exp",
     .amqpAdditionals .amqpReconnectAfterLocalTimeoutExpired)]

/-- A case of the `switch` with the member it sets. -/
abbrev Row := (m : Member) × Reading m.type

/-- The cases that set one member. No `double` lies between a bound of a
range and the `double` the source compares with. -/
def row : OptionName → Option Row
  | .crossBorderTrigger => some ⟨.crossBorderTrigger, .set true⟩
  | .brokerUrl => some ⟨.amqpBrokerOne .brokerUrl,
      .push fun _ => "Error in parsing the AMQP broker url/address.\n"⟩
  | .brokerQueue => some ⟨.amqpBrokerOne .brokerTopic,
      .push fun _ => "Error in parsing the AMQP broker queue/topic name.\n"⟩
  | .amqpMainUsername => some ⟨.amqpBrokerOne .amqpUsername,
      .push fun _ => "Error in parsing the AMQP broker username.\n"⟩
  | .amqpMainPassword => some ⟨.amqpBrokerOne .amqpPassword,
      .push fun _ => "Error in parsing the AMQP broker password.\n"⟩
  | .amqpMainReconnect => some ⟨.amqpBrokerOne .amqpReconnect, .set true⟩
  | .amqpMainAllowSasl => some ⟨.amqpBrokerOne .amqpAllowSasl, .set true⟩
  | .amqpMainAllowPlain => some ⟨.amqpBrokerOne .amqpAllowInsecure, .set true⟩
  | .enableOnDemandRequests => some ⟨.odJsonInterfaceEnabled, .set true⟩
  | .setOnDemandJsonPort => some ⟨.odJsonInterfacePort,
      .long "-o/set-on-demand-json-port"
        "Error in parsing the port number for the on-demand REST interface server.\n" isPort⟩
  | .msRestAddress => some ⟨.msRestAddr,
      .push fun _ => "Error in parsing the Maneuvering Service REST server address. " ++
        "Did you specify it twice?\n"⟩
  | .msRestPort => some ⟨.msRestPort,
      .long "-s/ms-rest-port"
        "Error in parsing the Maneuvering Service REST server port.\n" isPort⟩
  | .vehvizNodejsAddress => some ⟨.vehvizNodejsAddr,
      .push fun _ => "Error in parsing the IPv4 address for the UDP connection to the " ++
        "Vehicle Visualizer Node.js server.\n"⟩
  | .vehvizNodejsPort => some ⟨.vehvizNodejsPort,
      .long "-z/vehviz-nodejs-port"
        ("Error in parsing the port number for the UDP connection to the Vehicle Visualizer " ++
          "Node.js server.\n") isPort⟩
  | .vehvizWebPort => some ⟨.vehvizWebInterfacePort,
      .long "-w/vehviz-web-port"
        ("Error in parsing the port number for the web interface of the Vehicle " ++
          "Visualizer.\n") isPort⟩
  | .logFileName => some ⟨.logfileName,
      .push fun optarg =>
        "Error in parsing the log file name: " ++ String.ofList optarg ++ ".\n"⟩
  | .contextRadius => some ⟨.contextRadius,
      .double "-C/context-radius"
        "Error in parsing the context radius (it cannot be lower than 10 meters).\n"
        fun v => decide (10 ≤ v)⟩
  | .disableAgeCheck => some ⟨.ageCheckEnabled,
      .clearOnce ("Error. The age check (-g/--disable-age-check) has already been disabled " ++
        "once.\n")⟩
  | .vehvizUpdateInterval => some ⟨.vehvizUpdateIntervalSec,
      .double "--vehviz-update-interval"
        ("Error in parsing the update rate for the web-based GUI. Remember that it must be " ++
          "within [0.05,1] seconds.\n")
        fun v => decide (1 / 20 ≤ v ∧ v ≤ 1)⟩
  | .amqpMainIdleTimeout => some ⟨.amqpBrokerOne .amqpIdleTimeout,
      -- the source names the other option in this message
      .long "--vehviz-update-interval"
        ("Error in parsing the main AMQP client idle timeout value. Probably a wrong format " ++
          "has been specified.\n") fun _ => true⟩
  | .indicatorTrgmanDisable => some ⟨.indicatorTrgManEnabled, .set false⟩
  | .enableLeftIndicatorTrigger => some ⟨.leftIndicatorTrgEnable, .set true⟩
  | .amqpMainReconnLocalTimeoutExp =>
    some ⟨.amqpBrokerOne .amqpReconnectAfterLocalTimeoutExpired, .set true⟩
  | .msRestPeriodicity => some ⟨.msRestPeriodicity,
      .double "--ms-rest-periodicity"
        ("Error in parsing the periodicity for the REST data transmission. Remember that it " ++
          "must be within [0.001,10.0] seconds.\n")
        fun v => decide (1 / 1000 ≤ v ∧ v ≤ 10)⟩
  | .gnTimestampProperty => some ⟨.gnTimestampProperty,
      .push fun optarg =>
        "Error in parsing the gn timestamp property name: " ++ String.ofList optarg ++ ".\n"⟩
  | .enableExtLightsHijack => some ⟨.extLightsHijackEnable, .set true⟩
  | .enableInteropHijack => some ⟨.interopHijackEnable, .set true⟩
  | .amqpEnableAdditionals => none
  | .amqpAdditionals _ => none

/-! ## The additional clients -/

/-- `--amqp-enable-additionals`: an `unsigned int` takes the value of
`strtol`. The clients that were allocated before are lost. -/
def enableAdditionals (o : StructOptions) (optarg : Text) : Except Ending StructOptions :=
  let num := (strtol optarg % 2 ^ 32).toNat
  if strtolDigits optarg = [] then .error (noDigit "--amqp-enable-additionals")
  else if strtolErrno optarg || decide (num < 1) || decide (9 < num) then
    .error (.shortInfo ("Error in parsing the number of additional AMQP clients. Remember that " ++
      "this number must be within [1,9].\n"))
  else .ok { o with
    numAmqpXEnabled := num
    amqpBrokerX := fun _ => brokerOptionsInitialize }

/-- What a list is called in the message of a failure. -/
def listName : ConfigField → String
  | .brokerUrl => "URL"
  | .brokerTopic => "queue/topic"
  | .amqpUsername => "username"
  | .amqpPassword => "password"
  | .amqpReconnect => "reconnect options"
  | .amqpAllowSasl => "allow SASL options"
  | .amqpAllowInsecure => "allow PLAIN options"
  | .amqpIdleTimeout => "idle timeout options"
  | .amqpReconnectAfterLocalTimeoutExpired => "reconnect after local idle timeout options"

/-- The case of a list for the field of all additional clients. -/
def configureAdditionals (o : StructOptions) (field : ConfigField) (optarg : Text) :
    Except Ending StructOptions :=
  if o.numAmqpXEnabled = 0 then
    .error (.shortInfo ("Error: attempting to configure additional AMQP clients before enabling " ++
      "them.\nYou must specify --amqp-enable-additionals before attempting to configure any " ++
      "other additional AMQP client option.\n"))
  else
    match fillAMQPClientOptionsArray field optarg o.numAmqpXEnabled o.amqpBrokerX with
    | (true, brokerOpts) => .ok { o with amqpBrokerX := brokerOpts }
    | (false, _) => .error (.shortInfo ("Error in parsing the additional AMQP broker(s) " ++
        listName field ++ ". Please check if enough arguments are specified in the " ++
        "comma-separated list.\n"))

/-! ## parse_options -/

/-- A case of the `switch`. -/
def handle (r : NumberReader) (o : StructOptions) (name : OptionName) (optarg : Option Text) :
    Except Ending StructOptions :=
  match row name with
  | some ⟨m, reading⟩ => do
    let v ← reading.read r (o.member m) optarg
    return o.assign m v
  | none =>
    match name, optarg with
    | .amqpEnableAdditionals, some optarg => enableAdditionals o optarg
    | .amqpAdditionals field, some optarg => configureAdditionals o field optarg
    | _, _ => .error (.shortInfo "")

/-- The check of an additional client. -/
def checkClient (o : StructOptions) (i : ℕ) : Except Ending Unit :=
  let missing (what : String) : Ending := .failure ("Error! No broker " ++ what ++
    " specified for additional AMQP client " ++ toString (i + 2) ++ ".\nWhen using additional " ++
    "AMQP clients it is mandatory to specify a broker URL and queue/topic.\n")
  if (show OptionsString from o.amqpBrokerX i .brokerUrl).len ≤ 0 then
    .error (missing "url/address")
  else if (show OptionsString from o.amqpBrokerX i .brokerTopic).len ≤ 0 then
    .error (missing "queue/topic")
  else .ok ()

/-- The default goes where no string was stored. -/
def fillDefault (old : OptionsString) (default : Text) (what : String) :
    Except Ending OptionsString :=
  if old.len ≤ 0 then
    match optionsStringPush old default with
    | (true, s) => .ok s
    | (false, _) => .error (.failure ("Error! Cannot set the default " ++ what ++
        ".\nPlease report this bug to the developers.\n"))
  else .ok old

def defaultBrokerUrl : Text := "127.0.0.1:5672".toList

def defaultBrokerQueue : Text := "topic://5gcarmen.examples".toList

def defaultManeuveringServiceRestSrvAddr : Text := "http://localhost".toList

def defaultVehvizNodejsUdpAddr : Text := "127.0.0.1".toList

def defaultGnTimestampProperty : Text := "gn_ts".toList

/-- The defaults of the strings that have one. -/
def setDefaults (o : StructOptions) : Except Ending StructOptions := do
  let url ← fillDefault (o.member (.amqpBrokerOne .brokerUrl)) defaultBrokerUrl
    "broker url/address"
  let o := o.assign (.amqpBrokerOne .brokerUrl) url
  let topic ← fillDefault (o.member (.amqpBrokerOne .brokerTopic)) defaultBrokerQueue
    "broker queue/topic"
  let o := o.assign (.amqpBrokerOne .brokerTopic) topic
  let addr ← fillDefault (o.member .msRestAddr) defaultManeuveringServiceRestSrvAddr
    "Maneuvering Service REST server address"
  let o := o.assign .msRestAddr addr
  let addr ← fillDefault (o.member .vehvizNodejsAddr) defaultVehvizNodejsUdpAddr
    "IPv4 address for the UDP connection to the Vehicle Visualizer Node.js server"
  let o := o.assign .vehvizNodejsAddr addr
  let name ← fillDefault (o.member .gnTimestampProperty) defaultGnTimestampProperty
    "gn timestamp property name"
  return o.assign .gnTimestampProperty name

/-- What stands between the loop and the checks of the area. -/
def finish (o : StructOptions) : Except Ending StructOptions := do
  (List.range o.numAmqpXEnabled).forM (checkClient o)
  setDefaults o

/-- The case an option is handled in. `getopt_long` hands out no others. -/
def handleLong (r : NumberReader) (o : StructOptions) (text : String) (optarg : Option Text) :
    Except Exit StructOptions :=
  match longOpts.lookup text with
  | none => .error (.shortInfo "")
  | some name => (handle r o name optarg).mapError Ending.exit

/-- The members and options of this file, for `parseOptions`. -/
def otherOptions (r : NumberReader) : OtherOptions :=
  { Members := StructOptions
    initial := structOptionsInitialize
    handle := handleLong r
    finish := fun o => (finish o).mapError Ending.exit }

end SLDM.Options
