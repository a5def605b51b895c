/-
SLDM.Startup.Clients — the AMQP clients `main` starts from the options.

The main client is built from `amqp_broker_one`, the others by threads
from `amqp_broker_x`. A `std::string` of an `options_string` nothing was
stored in reads a null pointer, and `AMQPclient_t` stops the program at an
index it has no options for; `clients_of_accepted` says that after an
accepted line neither happens, and what every client connects with.

Outside the options, several things can end `main` before that (`Stop`):
the thread of the visualizer, which calls `exit` when it cannot start or
reach its server, an exception of `getQuadKeyFilter`, which is called outside
any `try`, a log file that does not open, a JSON server that does not start
and a thread that cannot be created. Whenever the visualizer ends the
process, it is taken to do so before the clients are built.

Without a log file name the main client does not log, but the threads get
the name with their number behind it, so they log to files named `2`, `3`
and so on.
-/
import SLDM.Options.AdditionalClients

namespace SLDM.Startup

open Lines QuadKey Options

/-! ## Building a client -/

/-- The members of `AMQPClient` that are set before its container runs. -/
structure NewClient where
  connUrl : Text
  addr : Text
  area : Area
  logfileName : Text
  username : Text
  password : Text
  allowSasl : Bool
  allowInsecure : Bool
  reconnect : Bool
  idleTimeoutMs : ℤ
  clientId : Text
  quadKeyFilter : Text
  indicatorTrgManEnabled : Bool

/-- `options_string_pop`, `none` for the null pointer. -/
def optionsStringPop (s : OptionsString) : Option Text := s.buf

/-- What `main` finds outside the program: whether the thread of the
visualizer lets the process run, the time in the form of `strftime`, the
cache file, which log files `fopen` opens, whether the JSON server starts
and whether threads can be created. -/
structure StartEnv where
  visualizerRuns : Bool
  now : Text
  platform : Platform
  canWrite : Bool
  cacheFile : Option Text
  opens : Text → Bool
  serverStarts : Bool
  spawns : Bool

/-- How `main` ends before it runs a client. -/
inductive Stop
  | visualizer
  | nullPointer
  | uncaught (e : StdException)
  | noServer
  | noThread

def orNull {α : Type} : Option α → Except Stop α
  | some a => .ok a
  | none => .error .nullPointer

/-- What `setUsername` and `setPassword` leave: the call is made for a
string that was stored. -/
def credential (s : OptionsString) : Option Text :=
  if 0 < s.len then optionsStringPop s else some []

section Start

variable {r : NumberReader} (o : OptionValues (otherOptions r).Members)

/-- The constructor and the setters, the same in `main` and in
`AMQPclient_t`; `none` when a null pointer is read. -/
def newClient (broker : BrokerOptions) (logfileName clientID filterStr : Text) :
    Option NewClient := do
  let connUrl ← optionsStringPop (broker .brokerUrl)
  let addr ← optionsStringPop (broker .brokerTopic)
  let username ← credential (broker .amqpUsername)
  let password ← credential (broker .amqpPassword)
  return {
    connUrl := connUrl
    addr := addr
    area := o.area
    logfileName := logfileName
    username := username
    password := password
    allowSasl := broker .amqpAllowSasl
    allowInsecure := broker .amqpAllowInsecure
    reconnect := broker .amqpReconnect
    idleTimeoutMs := broker .amqpIdleTimeout
    clientId := clientID
    quadKeyFilter := quadKeyFilter o filterStr
    indicatorTrgManEnabled := (structOptions o).member .indicatorTrgManEnabled }

/-- A thread builds its client, or stops the program. -/
inductive Started
  | client (c : NewClient)
  | tooMany

/-- `AMQPclient_t` up to the loop. -/
def amqpClientT (logfileName clientID filterStr : Text) (clientIndex : ℕ) : Option Started :=
  if 9 ≤ clientIndex then some .tooMany
  else (newClient o ((structOptions o).amqpBrokerX clientIndex) logfileName clientID
    filterStr).map .client

def textStdout : Text := "stdout".toList

/-- `logfile_name` in `main`. `now` is the time in the form of `strftime`. -/
def logfileName (now : Text) : Option Text :=
  let name : OptionsString := (structOptions o).member .logfileName
  if 0 < name.len then
    (optionsStringPop name).map fun text => if text ≠ textStdout then text ++ now else text
  else some []

/-- The name a thread gets. -/
def logfileNameX (name : Text) (i : ℕ) : Text :=
  if name = textStdout then textStdout else name ++ (toString (i + 2)).toList

/-- `getQuadKeyFilter` as `main` calls it. -/
def StartEnv.getQuadKeyFilter (env : StartEnv) : Except StdException Answer :=
  QuadKey.getQuadKeyFilter env.platform tilesys env.canWrite env.cacheFile o.extendedArea

/-- The time the filter took is written to a file that may not be open. -/
def logFilterTime (env : StartEnv) (name : Text) : Except Stop Unit :=
  if name ≠ [] ∧ name ≠ textStdout ∧ env.opens name = false then .error .nullPointer else .ok ()

/-- The JSON server, when it is enabled. -/
def startServer (env : StartEnv) : Except Stop Unit :=
  let odJsonInterfaceEnabled : Bool := (structOptions o).member .odJsonInterfaceEnabled
  if odJsonInterfaceEnabled = true ∧ env.serverStarts = false then .error .noServer else .ok ()

/-- The thread of the visualizer, which runs beside `main`. -/
def visualizerThread (env : StartEnv) : Except Stop Unit :=
  if env.visualizerRuns = true then .ok () else .error .visualizer

/-- `std::thread`. -/
def spawn {α : Type} (env : StartEnv) (started : Except Stop α) : Except Stop α :=
  if env.spawns = true then started else .error .noThread

/-- The clients of `main`: its own, and one for each thread. -/
def startClients (env : StartEnv) : Except Stop (NewClient × List Started) := do
  visualizerThread env
  let name ← orNull (logfileName o env.now)
  let ans ← (env.getQuadKeyFilter o).mapError .uncaught
  logFilterTime env name
  let main ← orNull
    (newClient o (structOptions o).amqpBrokerOne name "1".toList ans.filterString)
  startServer o env
  let others ← (List.range (structOptions o).numAmqpXEnabled).mapM fun i =>
    spawn env <|
      orNull (amqpClientT o (logfileNameX name i) (toString (i + 2)).toList ans.filterString i)
  return (main, others)

end Start

/-! ## Connecting -/

/-- `proton::duration`. -/
inductive Duration
  | forever
  | ms (n : ℤ)
deriving DecidableEq, Repr

/-- `proton::connection_options`. -/
@[ext] structure ConnectionOptions where
  user : Option Text
  password : Option Text
  reconnect : Bool
  saslEnabled : Bool
  saslAllowInsecureMechs : Bool
  idleTimeout : Option Duration
deriving DecidableEq, Repr

/-- `co` at the end of `on_container_start`. -/
def NewClient.connectionOptions (c : NewClient) : ConnectionOptions :=
  { user := if c.username ≠ [] then some c.username else none
    password := if c.password ≠ [] then some c.password else none
    reconnect := c.reconnect
    saslEnabled := c.allowSasl
    saslAllowInsecureMechs := c.allowInsecure
    idleTimeout :=
      if 0 ≤ c.idleTimeoutMs then
        some (if c.idleTimeoutMs = 0 then .forever else .ms c.idleTimeoutMs)
      else none }

/-- What the options of a broker come to: the text of a string that is not
empty, and a timeout that is not negative. -/
def connectionOf (broker : BrokerOptions) : ConnectionOptions :=
  { user := (show OptionsString from broker .amqpUsername).buf.filter (· ≠ [])
    password := (show OptionsString from broker .amqpPassword).buf.filter (· ≠ [])
    reconnect := broker .amqpReconnect
    saslEnabled := broker .amqpAllowSasl
    saslAllowInsecureMechs := broker .amqpAllowInsecure
    idleTimeout :=
      let timeout : ℤ := broker .amqpIdleTimeout
      if timeout < 0 then none else if timeout = 0 then some .forever else some (.ms timeout) }

/-- A client is built from the options of a broker. -/
structure BuiltFrom (broker : BrokerOptions) (c : NewClient) : Prop where
  connUrl : broker .brokerUrl = stored c.connUrl
  addr : broker .brokerTopic = stored c.addr
  connection : c.connectionOptions = connectionOf broker

section Accepted

variable {r : NumberReader} {line : List Opt} {o : OptionValues (otherOptions r).Members}

/-- What `on_container_start` makes of a name or password. -/
theorem credential_eq {s : OptionsString} (h : StoredOrUnset s) :
    ∃ text, credential s = some text ∧
      (if text ≠ [] then some text else none) = s.buf.filter (· ≠ []) := by
  rcases h with rfl | ⟨text, -, rfl⟩
  · exact ⟨[], rfl, rfl⟩
  · refine ⟨text, if_pos (len_stored text), ?_⟩
    rw [stored, Option.filter_some]
    simp only [decide_eq_true_eq]

/-- No null pointer is read for a broker and a topic that are set. -/
theorem newClient_builtFrom (broker : BrokerOptions) (hurl : Stored (broker .brokerUrl))
    (htopic : Stored (broker .brokerTopic)) (huser : StoredOrUnset (broker .amqpUsername))
    (hpassword : StoredOrUnset (broker .amqpPassword)) (logfileName clientID filterStr : Text) :
    ∃ c, newClient o broker logfileName clientID filterStr = some c ∧ BuiltFrom broker c ∧
      c.area = o.area ∧ c.logfileName = logfileName ∧ c.clientId = clientID ∧
      c.quadKeyFilter = quadKeyFilter o filterStr := by
  obtain ⟨url, -, hurl⟩ := hurl
  obtain ⟨topic, -, htopic⟩ := htopic
  obtain ⟨username, husername, huserOption⟩ := credential_eq huser
  obtain ⟨password, hpasswordText, hpasswordOption⟩ := credential_eq hpassword
  have hpopUrl : optionsStringPop (broker .brokerUrl) = some url := by rw [hurl]; rfl
  have hpopTopic : optionsStringPop (broker .brokerTopic) = some topic := by rw [htopic]; rfl
  unfold newClient
  rw [hpopUrl, hpopTopic, husername, hpasswordText]
  refine ⟨_, rfl, ⟨hurl, htopic, ?_⟩, rfl, rfl, rfl, rfl⟩
  have htimeout : ∀ timeout : ℤ,
      (if 0 ≤ timeout then some (if timeout = 0 then Duration.forever else .ms timeout)
        else none) =
        if timeout < 0 then none
        else if timeout = 0 then some .forever else some (.ms timeout) := by
    intro timeout
    by_cases hneg : timeout < 0
    · rw [if_neg (not_le.mpr hneg), if_pos hneg]
    · rw [if_pos (not_lt.mp hneg), if_neg hneg]
      split <;> rfl
  exact ConnectionOptions.ext huserOption hpasswordOption rfl rfl rfl (htimeout _)

/-- `mapM` over calls that all return. -/
theorem mapM_eq_ok {ε α β : Type} {f : α → Except ε β} {g : α → β} {l : List α}
    (h : ∀ a ∈ l, f a = .ok (g a)) : l.mapM f = .ok (l.map g) := by
  induction l with
  | nil => rfl
  | cons a l ih =>
    rw [List.mapM_cons, h a List.mem_cons_self, ih fun b hb => h b (List.mem_cons_of_mem a hb)]
    rfl

/-- A thread never logs to the file without a name. -/
theorem logfileNameX_ne_nil (name : Text) (i : ℕ) : logfileNameX name i ≠ [] := by
  unfold logfileNameX
  split
  · decide
  · intro hnil
    have hnumber := (List.append_eq_nil_iff.mp hnil).2
    rw [Nat.toString_eq_repr, Nat.toList_repr] at hnumber
    exact Nat.toDigits_ne_nil hnumber

/-- The name of the log file is stored, or there is none. -/
theorem logfileName_isSome (h : StoredOrUnset ((structOptions o).member .logfileName))
    (now : Text) : ∃ name, logfileName o now = some name := by
  unfold logfileName
  rcases h with h | ⟨text, -, h⟩
  · rw [h]
    exact ⟨[], rfl⟩
  · rw [h]
    exact ⟨_, if_pos (len_stored text)⟩

/-- The options of an additional client are what the lists say. -/
theorem amqpBrokerX_of_accepted (h : parseOptions r (otherOptions r) line = .ok o) {i : ℕ}
    (hi : i < (structOptions o).numAmqpXEnabled) :
    (structOptions o).amqpBrokerX i = fun field =>
      valueGiven i field.type (brokerOptionsInitialize field) (listsGiven field line) :=
  funext fun field => (additionals_of_accepted h).1.fields i hi field

/-- A thread builds its client: there are nine at most, and each has a
broker and a topic. -/
theorem amqpClientT_builtFrom (h : parseOptions r (otherOptions r) line = .ok o) {i : ℕ}
    (hi : i < (structOptions o).numAmqpXEnabled) (logfileName clientID filterStr : Text) :
    ∃ c, amqpClientT o logfileName clientID filterStr i = some (.client c) ∧
      BuiltFrom ((structOptions o).amqpBrokerX i) c ∧ c.area = o.area ∧
      c.logfileName = logfileName ∧ c.clientId = clientID ∧
      c.quadKeyFilter = quadKeyFilter o filterStr := by
  obtain ⟨hclients, hset⟩ := additionals_of_accepted h
  have huser : StoredOrUnset ((structOptions o).amqpBrokerX i .amqpUsername) := by
    rw [amqpBrokerX_of_accepted h hi]
    exact storedOrUnset_valueGiven i _
  have hpassword : StoredOrUnset ((structOptions o).amqpBrokerX i .amqpPassword) := by
    rw [amqpBrokerX_of_accepted h hi]
    exact storedOrUnset_valueGiven i _
  obtain ⟨c, hc, hbuilt⟩ := newClient_builtFrom (o := o) _ (hset i hi).1 (hset i hi).2 huser
    hpassword logfileName clientID filterStr
  have hindex : ¬ 9 ≤ i := by
    have hbound := hclients.bound
    omega
  refine ⟨c, ?_, hbuilt⟩
  rw [amqpClientT, if_neg hindex, hc]
  rfl

/-- The main client is built: its broker and its topic have defaults. -/
theorem main_builtFrom (h : parseOptions r (otherOptions r) line = .ok o)
    (logfileName clientID filterStr : Text) :
    ∃ c, newClient o (structOptions o).amqpBrokerOne logfileName clientID filterStr = some c ∧
      BuiltFrom (fun field => (lastGiven (givenTo r (.amqpBrokerOne field)) line).getD
        (defaultMember (.amqpBrokerOne field))) c ∧ c.area = o.area ∧
      c.logfileName = logfileName ∧ c.clientId = clientID ∧
      c.quadKeyFilter = quadKeyFilter o filterStr := by
  have hmember := fun field => members_of_accepted h (.amqpBrokerOne field)
  have hone : (structOptions o).amqpBrokerOne =
      fun field => (lastGiven (givenTo r (.amqpBrokerOne field)) line).getD
        (defaultMember (.amqpBrokerOne field)) :=
    funext fun field => (hmember field).1
  rw [← hone]
  exact newClient_builtFrom (structOptions o).amqpBrokerOne (hmember .brokerUrl).2.1
    (hmember .brokerTopic).2.1 (hmember .amqpUsername).2.1 (hmember .amqpPassword).2.1
    logfileName clientID filterStr

/-- Nothing outside the options ends `main`. -/
structure Undisturbed (o : OptionValues (otherOptions r).Members) (env : StartEnv)
    (ans : Answer) : Prop where
  visualizer : env.visualizerRuns = true
  filter : env.getQuadKeyFilter o = .ok ans
  logfile : ∀ name, logfileName o env.now = some name → name ≠ [] → name ≠ textStdout →
    env.opens name = true
  server : (structOptions o).member .odJsonInterfaceEnabled = true → env.serverStarts = true
  threads : env.spawns = true

/-- After an accepted line, when nothing outside the options stops it, `main`
and its threads build one client more than there are additional ones, and
none reads a null pointer or stops at its index. The main client connects as
the last of its options say, the client `i` as the lists say, with the same
filter; the additional ones always have the name of a log file. -/
theorem clients_of_accepted (h : parseOptions r (otherOptions r) line = .ok o) {env : StartEnv}
    {ans : Answer} (henv : Undisturbed o env ans) :
    ∃ main others, startClients o env = .ok (main, others.map Started.client) ∧
      others.length = (lastGiven enabledNumber line).getD 0 ∧ others.length ≤ 9 ∧
      BuiltFrom (fun field => (lastGiven (givenTo r (.amqpBrokerOne field)) line).getD
        (defaultMember (.amqpBrokerOne field))) main ∧
      main.clientId = "1".toList ∧
      (∀ i (hi : i < others.length),
        BuiltFrom (fun field => valueGiven i field.type (brokerOptionsInitialize field)
          (listsGiven field line)) others[i] ∧
        others[i].clientId = (toString (i + 2)).toList ∧ others[i].logfileName ≠ []) ∧
      ∀ c ∈ main :: others,
        c.area = o.area ∧ c.quadKeyFilter = quadKeyFilter o ans.filterString := by
  have hclients := (additionals_of_accepted h).1
  obtain ⟨name, hname⟩ := logfileName_isSome (members_of_accepted h .logfileName).2.1 env.now
  obtain ⟨main, hmain, hmainBuilt, hmainArea, -, hmainId, hmainFilter⟩ :=
    main_builtFrom h name "1".toList ans.filterString
  have hthread : ∀ i < (structOptions o).numAmqpXEnabled, ∃ c,
      amqpClientT o (logfileNameX name i) (toString (i + 2)).toList ans.filterString i =
        some (.client c) ∧
      BuiltFrom ((structOptions o).amqpBrokerX i) c ∧ c.area = o.area ∧
      c.logfileName = logfileNameX name i ∧ c.clientId = (toString (i + 2)).toList ∧
      c.quadKeyFilter = quadKeyFilter o ans.filterString :=
    fun i hi => amqpClientT_builtFrom h hi _ _ ans.filterString
  have : Nonempty NewClient := ⟨main⟩
  choose! client hclient using hthread
  have hothers : (List.range (structOptions o).numAmqpXEnabled).mapM (fun i => spawn env <|
      orNull (amqpClientT o (logfileNameX name i) (toString (i + 2)).toList ans.filterString i)) =
      .ok ((List.range (structOptions o).numAmqpXEnabled).map
        fun i => Started.client (client i)) :=
    mapM_eq_ok fun i hi =>
      (if_pos henv.threads).trans (congrArg orNull (hclient i (List.mem_range.mp hi)).1)
  have hlog : logFilterTime env name = .ok () := by
    refine if_neg ?_
    rintro ⟨hne, hstdout, hclosed⟩
    rw [henv.logfile name hname hne hstdout] at hclosed
    cases hclosed
  have hserver : startServer o env = .ok () := by
    refine if_neg ?_
    rintro ⟨henabled, hnot⟩
    rw [henv.server henabled] at hnot
    cases hnot
  refine ⟨main, (List.range (structOptions o).numAmqpXEnabled).map client, ?_, ?_, ?_, ?_, hmainId,
    fun i hi => ?_, fun c hc => ?_⟩
  · refine bind_eq_ok.mpr ⟨(), if_pos henv.visualizer, ?_⟩
    refine bind_eq_ok.mpr ⟨name, congrArg orNull hname, ?_⟩
    refine bind_eq_ok.mpr ⟨ans, mapError_eq_ok.mpr henv.filter, ?_⟩
    refine bind_eq_ok.mpr ⟨(), hlog, bind_eq_ok.mpr ⟨main, congrArg orNull hmain, ?_⟩⟩
    refine bind_eq_ok.mpr ⟨(), hserver, bind_eq_ok.mpr ⟨_, hothers, ?_⟩⟩
    rw [List.map_map]
    rfl
  · rw [List.length_map, List.length_range, hclients.number]
  · rw [List.length_map, List.length_range]
    exact hclients.bound
  · exact hmainBuilt
  · rw [List.length_map, List.length_range] at hi
    obtain ⟨-, hbuilt, -, hlog, hid, -⟩ := hclient i hi
    rw [List.getElem_map, List.getElem_range]
    refine ⟨?_, hid, ?_⟩
    · rw [← amqpBrokerX_of_accepted h hi]
      exact hbuilt
    · rw [hlog]
      exact logfileNameX_ne_nil name i
  · rcases List.mem_cons.mp hc with rfl | hc
    · exact ⟨hmainArea, hmainFilter⟩
    · obtain ⟨i, hi, rfl⟩ := List.mem_map.mp hc
      obtain ⟨-, -, harea, -, -, hfilter⟩ := hclient i (List.mem_range.mp hi)
      exact ⟨harea, hfilter⟩

end Accepted

/-- A start at a time and with a cache file for the area of `brokerLine`,
its server and threads free to start. -/
def cachedEnv : StartEnv where
  visualizerRuns := true
  now := []
  platform := onEquator
  canWrite := false
  cacheFile := some "45.000000\n46.000000\n7.000000\n8.000000\n1202\n".toList
  opens _ := false
  serverStarts := true
  spawns := true

/-- One additional client: it connects to its own broker without a user,
with the filter of the cache file. -/
theorem clients_of_accepted_brokerLine :
    ∃ o main c, parseOptions plainNumbers (otherOptions plainNumbers) brokerLine = .ok o ∧
      startClients o cachedEnv = .ok (main, [Started.client c]) ∧
      main.connUrl = "10.0.0.1:5672".toList ∧ c.connUrl = "10.0.0.2:5672".toList ∧
      c.clientId = "2".toList ∧ c.connectionOptions.user = none ∧
      c.quadKeyFilter = quadKeyFilter o "quadkeys LIKE '1202%'".toList := by
  obtain ⟨o, ho⟩ := parseOptions_brokerLine
  have harea : o.extendedArea = ⟨45, 7, 46, 8⟩ := by
    have hgiven : extendedAreaGiven plainNumbers brokerLine = some ⟨45, 7, 46, 8⟩ := by
      decide +kernel
    exact Option.some.inj ((extendedArea_of_accepted ho).symm.trans hgiven)
  have hname : logfileName o [] = some [] := by
    have hnone : lastGiven (givenTo plainNumbers .logfileName) brokerLine = none := by
      decide +kernel
    rw [logfileName, (members_of_accepted ho .logfileName).1, hnone]
    rfl
  have hfilter : cachedEnv.getQuadKeyFilter o =
      .ok ⟨"quadkeys LIKE '1202%'".toList, true, cachedEnv.cacheFile⟩ := by
    rw [StartEnv.getQuadKeyFilter, harea]
    decide +kernel
  obtain ⟨main, others, hstart, hlength, -, hmain, -, hothers, hall⟩ :=
    clients_of_accepted ho ⟨rfl, hfilter, fun name hsome hne => by
      cases hname.symm.trans hsome
      exact absurd rfl hne, fun _ => rfl, rfl⟩
  have henabled : lastGiven enabledNumber brokerLine = some 1 := by decide +kernel
  rw [henabled, Option.getD_some] at hlength
  obtain ⟨c, rfl⟩ := List.length_eq_one_iff.mp hlength
  obtain ⟨hbuilt, hid, -⟩ := hothers 0 Nat.zero_lt_one
  have hone : @Eq (Option OptionsString)
      (lastGiven (givenTo plainNumbers (.amqpBrokerOne .brokerUrl)) brokerLine)
      (some (stored "10.0.0.1:5672".toList)) := by
    decide +kernel
  have hfirst : valueGiven 0 .optionsString optionsStringDeclare
      (listsGiven .brokerUrl brokerLine) = stored "10.0.0.2:5672".toList := by
    decide +kernel
  have huser : (valueGiven 0 .optionsString optionsStringDeclare
      (listsGiven .amqpUsername brokerLine)).buf = none := by
    decide +kernel
  refine ⟨o, main, c, ho, hstart, ?_, ?_, hid, ?_, (hall c (by simp)).2⟩
  · have hurl := hmain.connUrl.symm.trans (congrArg (Option.getD · _) hone)
    exact Option.some.inj (congrArg OptionsString.buf hurl)
  · have hurl := hbuilt.connUrl.symm.trans hfirst
    exact Option.some.inj (congrArg OptionsString.buf hurl)
  · have hconnection := congrArg ConnectionOptions.user hbuilt.connection
    exact hconnection.trans (congrArg (Option.filter fun text => decide (text ≠ [])) huser)

end SLDM.Startup
