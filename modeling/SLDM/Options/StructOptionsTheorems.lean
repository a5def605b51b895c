/-
SLDM.Options.StructOptionsTheorems — what the members hold after a line
that is accepted.

`members_of_accepted` covers every member: it holds what the last of its
options has given, else its default, always within its range; a string and
the age check are given once at most, since a second option of theirs ends
the program.
-/
import SLDM.Lib.Runs
import SLDM.Options.StructOptions

namespace SLDM.Options

open Lines Decimal QuadKey Runs

/-! ## Strings -/

/-- The string that holds a text. -/
def stored (text : Text) : OptionsString := ⟨some text, text.length + 1⟩

/-- A string of at most 511 characters. -/
def Stored (s : OptionsString) : Prop :=
  ∃ text : Text, (text.length : ℤ) < maxOptionsStringLen ∧ s = stored text

/-- A string nothing has been stored in, or one that holds a text. -/
def StoredOrUnset (s : OptionsString) : Prop := s = optionsStringDeclare ∨ Stored s

theorem len_stored (text : Text) : 0 < (stored text).len := by
  show (0 : ℤ) < text.length + 1
  omega

/-- The check of an additional client: its broker was stored. -/
theorem StoredOrUnset.stored {s : OptionsString} (h : StoredOrUnset s) (hlen : 0 < s.len) :
    Stored s := by
  rcases h with rfl | hstored
  · exact absurd hlen (by decide)
  · exact hstored

/-- A push succeeds on an unset string and a text that is short enough. -/
theorem optionsStringPush_eq {s : OptionsString} {text : Text} :
    optionsStringPush s text =
      if s.buf = none ∧ (text.length : ℤ) < maxOptionsStringLen then (true, stored text)
      else (false, s) := by
  unfold optionsStringPush stored
  cases hbuf : s.buf with
  | some old => simp
  | none =>
    simp only [Option.isSome_none, Bool.false_eq_true, if_false, true_and]
    by_cases hlen : (text.length : ℤ) < maxOptionsStringLen
    · rw [if_pos hlen, if_neg (by omega)]
    · rw [if_neg hlen, if_pos (by omega)]

theorem optionsStringPush_eq_true {s s' : OptionsString} {text : Text} :
    optionsStringPush s text = (true, s') ↔
      s.buf = none ∧ (text.length : ℤ) < maxOptionsStringLen ∧ s' = stored text := by
  rw [optionsStringPush_eq]
  split
  · rename_i h
    simp only [Prod.mk.injEq, true_and, h]
    exact eq_comm
  · rename_i h
    simp only [Prod.mk.injEq, Bool.false_eq_true, false_and, false_iff]
    exact fun hpush => h ⟨hpush.1, hpush.2.1⟩

/-- The default of a string. -/
def orDefault (default : Text) (s : OptionsString) : OptionsString :=
  if s.len ≤ 0 then stored default else s

/-- The defaults are short enough: `setDefaults` does not fail. -/
theorem fillDefault_eq {s : OptionsString} {default : Text} (hs : StoredOrUnset s)
    (hdefault : (default.length : ℤ) < maxOptionsStringLen) (what : String) :
    fillDefault s default what = .ok (orDefault default s) := by
  unfold fillDefault orDefault
  rcases hs with rfl | ⟨text, -, rfl⟩
  · have hpush : optionsStringPush optionsStringDeclare default = (true, stored default) :=
      optionsStringPush_eq_true.mpr ⟨rfl, hdefault, rfl⟩
    rw [if_pos (by decide), if_pos (by decide), hpush]
  · have hlen := len_stored text
    rw [if_neg (by omega), if_neg (by omega)]

theorem stored_orDefault {s : OptionsString} {default : Text} (hs : StoredOrUnset s)
    (hdefault : (default.length : ℤ) < maxOptionsStringLen) : Stored (orDefault default s) := by
  rcases hs with rfl | ⟨text, htext, rfl⟩
  · exact ⟨default, hdefault, if_pos (by decide)⟩
  · have hlen := len_stored text
    exact ⟨text, htext, if_neg (by omega)⟩

/-! ## Reading an argument -/

/-- What the argument of an option says. -/
def Reading.given (r : NumberReader) : {type : MemberType} → Reading type → Option Text →
    Option type.Value
  | _, .set value, _ => some value
  | _, .clearOnce _, _ => some false
  | _, .push _, some optarg => some (stored optarg)
  | _, .long .., some optarg => some (strtol optarg)
  | _, .double .., some optarg => (r.strtod optarg).map Prod.fst
  | _, _, none => none

/-- What an accepted value meets, with the value before. -/
def Reading.Allows : {type : MemberType} → Reading type → type.Value → type.Value → Prop
  | _, .set value, _, v => v = value
  | _, .clearOnce _, old, v => old = true ∧ v = false
  | _, .push _, old, v => (show OptionsString from old).buf = none ∧ Stored v
  | _, .long _ _ accepts, _, v => (longMin ≤ v ∧ v ≤ longMax) ∧ accepts v = true
  | _, .double _ _ accepts, _, v => accepts v = true

theorem strtol_bounds (s : Text) : longMin ≤ strtol s ∧ strtol s ≤ longMax := by
  have hbounds : longMin ≤ longMax := by decide
  exact ⟨le_max_left _ _, max_le hbounds (min_le_left _ _)⟩

/-- A value that is accepted is the one given. -/
theorem Reading.read_eq_ok {r : NumberReader} {type : MemberType} {reading : Reading type}
    {old v : type.Value} {optarg : Option Text} (h : reading.read r old optarg = .ok v) :
    reading.given r optarg = some v ∧ reading.Allows old v := by
  cases reading with
  | set value =>
    cases h
    exact ⟨rfl, rfl⟩
  | clearOnce message =>
    cases old with
    | false => cases h
    | true =>
      cases h
      exact ⟨rfl, rfl, rfl⟩
  | push message =>
    cases optarg with
    | none => cases h
    | some optarg =>
      simp only [Reading.read] at h
      split at h
      · rename_i s hpush
        cases h
        obtain ⟨hbuf, hlen, rfl⟩ := optionsStringPush_eq_true.mp hpush
        exact ⟨rfl, hbuf, optarg, hlen, rfl⟩
      · cases h
  | long option message accepts =>
    cases optarg with
    | none => cases h
    | some optarg =>
      simp only [Reading.read] at h
      split at h
      · cases h
      · split at h
        · cases h
        · rename_i hcond
          cases h
          simp only [Bool.or_eq_true, Bool.not_eq_true', not_or, Bool.not_eq_false] at hcond
          exact ⟨rfl, strtol_bounds optarg, hcond.2⟩
  | double option message accepts =>
    cases optarg with
    | none => cases h
    | some optarg =>
      simp only [Reading.read] at h
      split at h
      · cases h
      · rename_i w rest hw
        split at h
        · cases h
        · rename_i hcond
          cases h
          simp only [Bool.or_eq_true, Bool.not_eq_true', not_or, Bool.not_eq_false] at hcond
          exact ⟨by rw [Reading.given, hw]; rfl, hcond.2⟩

/-! ## The range of a member -/

/-- The values a member can have while the line is read. -/
def InRange : (m : Member) → m.type.Value → Prop
  | .msRestAddr, s => StoredOrUnset s
  | .gnTimestampProperty, s => StoredOrUnset s
  | .vehvizNodejsAddr, s => StoredOrUnset s
  | .logfileName, s => StoredOrUnset s
  | .amqpBrokerOne .amqpUsername, s => StoredOrUnset s
  | .amqpBrokerOne .amqpPassword, s => StoredOrUnset s
  | .amqpBrokerOne .brokerUrl, s => StoredOrUnset s
  | .amqpBrokerOne .brokerTopic, s => StoredOrUnset s
  | .amqpBrokerOne .amqpIdleTimeout, (v : ℤ) => longMin ≤ v ∧ v ≤ longMax
  | .msRestPort, v => isPort v = true
  | .vehvizNodejsPort, v => isPort v = true
  | .vehvizWebInterfacePort, v => isPort v = true
  | .odJsonInterfacePort, v => isPort v = true
  | .msRestPeriodicity, (v : ℚ) => 1 / 1000 ≤ v ∧ v ≤ 10
  | .contextRadius, (v : ℚ) => 10 ≤ v
  | .vehvizUpdateIntervalSec, (v : ℚ) => 1 / 20 ≤ v ∧ v ≤ 1
  | _, _ => True

/-- Every default passes the check of its own option. -/
theorem inRange_initialMember (m : Member) : InRange m (initialMember m) := by
  cases m with
  | amqpBrokerOne field =>
    cases field with
    | amqpUsername => exact Or.inl rfl
    | amqpPassword => exact Or.inl rfl
    | brokerUrl => exact Or.inl rfl
    | brokerTopic => exact Or.inl rfl
    | amqpIdleTimeout => exact show longMin ≤ -1 ∧ -1 ≤ longMax by decide
    | _ => trivial
  | msRestAddr => exact Or.inl rfl
  | gnTimestampProperty => exact Or.inl rfl
  | vehvizNodejsAddr => exact Or.inl rfl
  | logfileName => exact Or.inl rfl
  | msRestPeriodicity => exact show (1 : ℚ) / 1000 ≤ 1 ∧ (1 : ℚ) ≤ 10 by norm_num
  | contextRadius => exact show (10 : ℚ) ≤ 150 by norm_num
  | vehvizUpdateIntervalSec => exact show (1 : ℚ) / 20 ≤ 1 / 2 ∧ (1 : ℚ) / 2 ≤ 1 by norm_num
  | msRestPort => rfl
  | vehvizNodejsPort => rfl
  | vehvizWebInterfacePort => rfl
  | odJsonInterfacePort => rfl
  | _ => trivial

/-- An option sets its member to a value in its range. -/
theorem inRange_of_allows {name : OptionName} {m : Member} {reading : Reading m.type}
    (hrow : row name = some ⟨m, reading⟩) {old v : m.type.Value} (h : reading.Allows old v) :
    InRange m v := by
  cases name <;> cases hrow
  case brokerUrl | brokerQueue | amqpMainUsername | amqpMainPassword | msRestAddress |
      vehvizNodejsAddress | logFileName | gnTimestampProperty =>
    exact Or.inr h.2
  case setOnDemandJsonPort | msRestPort | vehvizNodejsPort | vehvizWebPort => exact h.2
  case contextRadius | vehvizUpdateInterval | msRestPeriodicity =>
    simpa [Reading.Allows, InRange] using h
  case amqpMainIdleTimeout => exact h.1
  all_goals trivial

/-! ## One option -/

/-- What an option of the line gives to a member. -/
def givenTo (r : NumberReader) (m : Member) : Opt → Option m.type.Value
  | .other name optarg =>
    match (longOpts.lookup name).bind row with
    | some ⟨m', reading⟩ => if h : m' = m then h ▸ reading.given r optarg else none
    | none => none
  | _ => none

/-- The members that may be given once. -/
def GivenOnce (m : Member) : Prop := m.type = .field .optionsString ∨ m = .ageCheckEnabled

/-- The readings that close their member. -/
def Reading.once : {type : MemberType} → Reading type → Bool
  | _, .clearOnce _ => true
  | _, .push _ => true
  | _, _ => false

/-- A value that such a reading does not go on from. -/
def Closed : {type : MemberType} → type.Value → Prop
  | .field .optionsString, s => s.buf ≠ none
  | .field .bool, v => v = false
  | .field .long, _ => False
  | .double, _ => False

theorem once_of_row {name : OptionName} {m : Member} {reading : Reading m.type}
    (hrow : row name = some ⟨m, reading⟩) (honce : GivenOnce m) : reading.once = true := by
  cases name <;> cases hrow <;> first | rfl | rcases honce with h | h <;> cases h

theorem closed_of_allows {type : MemberType} {reading : Reading type} {old v : type.Value}
    (honce : reading.once = true) (h : reading.Allows old v) :
    ¬ Closed old ∧ Closed v := by
  cases reading with
  | clearOnce message =>
    obtain ⟨rfl, rfl⟩ := h
    exact ⟨nofun, rfl⟩
  | push message =>
    obtain ⟨hbuf, text, -, rfl⟩ := h
    exact ⟨fun hclosed => hclosed hbuf, nofun⟩
  | set value => cases honce
  | long option message accepts => cases honce
  | double option message accepts => cases honce

theorem mapError_eq_ok {ε ε' α : Type} {f : ε → ε'} {x : Except ε α} {v : α} :
    x.mapError f = .ok v ↔ x = .ok v := by
  cases x with
  | error e => exact iff_of_false nofun nofun
  | ok w => exact ⟨fun h => by cases h; rfl, fun h => by cases h; rfl⟩

section OneOption

variable {r : NumberReader}

/-- The members of an accepted line, under their own name. -/
def structOptions {r : NumberReader} (o : OptionValues (otherOptions r).Members) :
    StructOptions := o.others

/-- The options for the additional clients set no member. -/
theorem handle_of_no_row {o o' : StructOptions} {name : OptionName} {optarg : Option Text}
    (hrow : row name = none) (h : handle r o name optarg = .ok o') :
    o'.member = o.member ∧
      ((∃ text, optarg = some text ∧ name = .amqpEnableAdditionals ∧
        enableAdditionals o text = .ok o') ∨
      ∃ field text, optarg = some text ∧ name = .amqpAdditionals field ∧
        configureAdditionals o field text = .ok o') := by
  simp only [handle, hrow] at h
  split at h
  · rename_i text
    refine ⟨?_, Or.inl ⟨text, rfl, rfl, h⟩⟩
    unfold enableAdditionals at h
    simp only at h
    split_ifs at h
    cases h
    rfl
  · rename_i field text
    refine ⟨?_, Or.inr ⟨field, text, rfl, rfl, h⟩⟩
    unfold configureAdditionals at h
    split at h
    · cases h
    · split at h
      · cases h
        rfl
      · cases h
  · cases h

/-- A case with a row leaves the additional clients alone. -/
theorem handle_of_row {o o' : StructOptions} {name : OptionName} {optarg : Option Text}
    {m : Member} {reading : Reading m.type} (hrow : row name = some ⟨m, reading⟩)
    (h : handle r o name optarg = .ok o') :
    ∃ v, reading.given r optarg = some v ∧ reading.Allows (o.member m) v ∧ o' = o.assign m v := by
  simp only [handle, hrow] at h
  obtain ⟨v, hv, h⟩ := bind_eq_ok.mp h
  cases h
  obtain ⟨hgiven, hallows⟩ := Reading.read_eq_ok hv
  exact ⟨v, hgiven, hallows, rfl⟩

theorem handleLong_eq_ok {o o' : StructOptions} {text : String} {optarg : Option Text}
    (h : handleLong r o text optarg = .ok o') :
    ∃ name, longOpts.lookup text = some name ∧ handle r o name optarg = .ok o' := by
  unfold handleLong at h
  cases hlookup : longOpts.lookup text with
  | none =>
    rw [hlookup] at h
    cases h
  | some name =>
    rw [hlookup] at h
    exact ⟨name, rfl, mapError_eq_ok.mp h⟩

/-- An option of `OtherOptions` goes through `handle`; the others leave
the members alone. -/
theorem handleOption_others {s s' : OptionValues (otherOptions r).Members × Bool} {opt : Opt}
    (h : handleOption r (otherOptions r) s opt = .ok s') :
    (∃ text optarg name, opt = .other text optarg ∧ longOpts.lookup text = some name ∧
      handle r (structOptions s.1) name optarg = .ok (structOptions s'.1)) ∨
    ((∀ text optarg, opt ≠ .other text optarg) ∧ structOptions s'.1 = structOptions s.1) := by
  obtain ⟨o, versionFlg⟩ := s
  cases opt with
  | other text optarg =>
    obtain ⟨others, hothers, h⟩ := bind_eq_ok.mp h
    cases h
    obtain ⟨name, hlookup, hhandle⟩ := handleLong_eq_ok hothers
    exact Or.inl ⟨text, optarg, name, rfl, hlookup, hhandle⟩
  | area optarg =>
    simp only [handleOption] at h
    split at h <;> cases h
    exact Or.inr ⟨fun _ _ heq => (by cases heq), rfl⟩
  | extLat optarg =>
    obtain ⟨v, -, h⟩ := bind_eq_ok.mp h
    cases h
    exact Or.inr ⟨fun _ _ heq => (by cases heq), rfl⟩
  | extLon optarg =>
    obtain ⟨v, -, h⟩ := bind_eq_ok.mp h
    cases h
    exact Or.inr ⟨fun _ _ heq => (by cases heq), rfl⟩
  | disableQuadkeyFilter =>
    cases h
    exact Or.inr ⟨fun _ _ heq => (by cases heq), rfl⟩
  | version =>
    cases h
    exact Or.inr ⟨fun _ _ heq => (by cases heq), rfl⟩
  | help => cases h
  | unknown => cases h

theorem givenTo_other {m : Member} {text : String} {optarg : Option Text} {name : OptionName}
    (hlookup : longOpts.lookup text = some name) {m' : Member} {reading : Reading m'.type}
    (hrow : row name = some ⟨m', reading⟩) :
    givenTo r m (.other text optarg) =
      if h : m' = m then h ▸ reading.given r optarg else none := by
  simp only [givenTo, hlookup, Option.bind_some, hrow]

theorem givenTo_of_no_row {m : Member} {text : String} {optarg : Option Text} {name : OptionName}
    (hlookup : longOpts.lookup text = some name) (hrow : row name = none) :
    givenTo r m (.other text optarg) = none := by
  simp only [givenTo, hlookup, Option.bind_some, hrow]

/-- What an accepted option does to a member. -/
theorem member_step {s s' : OptionValues (otherOptions r).Members × Bool} {opt : Opt}
    (h : handleOption r (otherOptions r) s opt = .ok s') (m : Member) :
    (givenTo r m opt = some ((structOptions s'.1).member m) ∧
      InRange m ((structOptions s'.1).member m) ∧
      (GivenOnce m → ¬ Closed ((structOptions s.1).member m) ∧
        Closed ((structOptions s'.1).member m))) ∨
    (givenTo r m opt = none ∧ (structOptions s'.1).member m = (structOptions s.1).member m) := by
  rcases handleOption_others h with ⟨text, optarg, name, rfl, hlookup, hhandle⟩ | ⟨hother, heq⟩
  · cases hrow : row name with
    | none =>
      right
      exact ⟨givenTo_of_no_row hlookup hrow, by rw [(handle_of_no_row hrow hhandle).1]⟩
    | some found =>
      obtain ⟨m', reading⟩ := found
      obtain ⟨v, hgiven, hallows, hassign⟩ := handle_of_row hrow hhandle
      rw [givenTo_other hlookup hrow, hassign]
      by_cases hm : m' = m
      · subst hm
        left
        rw [dif_pos rfl, StructOptions.member_assign_self]
        exact ⟨hgiven, inRange_of_allows hrow hallows,
          fun honce => closed_of_allows (once_of_row hrow honce) hallows⟩
      · right
        exact ⟨dif_neg hm, StructOptions.member_assign_of_ne _ (Ne.symm hm) v⟩
  · right
    refine ⟨?_, by rw [heq]⟩
    cases opt with
    | other text optarg => exact absurd rfl (hother text optarg)
    | _ => rfl

end OneOption

/-! ## After the loop -/

/-- The value of a member once the defaults are set. -/
def withDefault : (m : Member) → m.type.Value → m.type.Value
  | .amqpBrokerOne .brokerUrl, s => orDefault defaultBrokerUrl s
  | .amqpBrokerOne .brokerTopic, s => orDefault defaultBrokerQueue s
  | .msRestAddr, s => orDefault defaultManeuveringServiceRestSrvAddr s
  | .vehvizNodejsAddr, s => orDefault defaultVehvizNodejsUdpAddr s
  | .gnTimestampProperty, s => orDefault defaultGnTimestampProperty s
  | _, v => v

/-- The range of a member once the defaults are set. -/
def Usable : (m : Member) → m.type.Value → Prop
  | .amqpBrokerOne .brokerUrl, s => Stored s
  | .amqpBrokerOne .brokerTopic, s => Stored s
  | .msRestAddr, s => Stored s
  | .vehvizNodejsAddr, s => Stored s
  | .gnTimestampProperty, s => Stored s
  | m, v => InRange m v

theorem length_defaultBrokerUrl : (defaultBrokerUrl.length : ℤ) < maxOptionsStringLen := by decide

theorem length_defaultBrokerQueue : (defaultBrokerQueue.length : ℤ) < maxOptionsStringLen := by
  decide

theorem length_defaultRestAddr :
    (defaultManeuveringServiceRestSrvAddr.length : ℤ) < maxOptionsStringLen := by decide

theorem length_defaultNodejsAddr :
    (defaultVehvizNodejsUdpAddr.length : ℤ) < maxOptionsStringLen := by decide

theorem length_defaultGnTimestampProperty :
    (defaultGnTimestampProperty.length : ℤ) < maxOptionsStringLen := by decide

theorem usable_withDefault {m : Member} {v : m.type.Value} (h : InRange m v) :
    Usable m (withDefault m v) := by
  cases m with
  | amqpBrokerOne field =>
    cases field with
    | brokerUrl => exact stored_orDefault h length_defaultBrokerUrl
    | brokerTopic => exact stored_orDefault h length_defaultBrokerQueue
    | _ => exact h
  | msRestAddr => exact stored_orDefault h length_defaultRestAddr
  | vehvizNodejsAddr => exact stored_orDefault h length_defaultNodejsAddr
  | gnTimestampProperty => exact stored_orDefault h length_defaultGnTimestampProperty
  | _ => exact h

/-- None of the failures that are to be reported to the developers
happens. -/
theorem setDefaults_eq {o : StructOptions} (h : ∀ m, InRange m (o.member m)) :
    setDefaults o = .ok { o with member := fun m => withDefault m (o.member m) } := by
  -- the five strings are different members, so each default sees the value of the loop
  have hurl := fillDefault_eq (h (.amqpBrokerOne .brokerUrl)) length_defaultBrokerUrl
  have htopic := fillDefault_eq (h (.amqpBrokerOne .brokerTopic)) length_defaultBrokerQueue
  have haddr := fillDefault_eq (h .msRestAddr) length_defaultRestAddr
  have hviz := fillDefault_eq (h .vehvizNodejsAddr) length_defaultNodejsAddr
  have hname := fillDefault_eq (h .gnTimestampProperty) length_defaultGnTimestampProperty
  refine bind_eq_ok.mpr ⟨_, hurl _, ?_⟩
  refine bind_eq_ok.mpr ⟨_, htopic _, ?_⟩
  refine bind_eq_ok.mpr ⟨_, haddr _, ?_⟩
  refine bind_eq_ok.mpr ⟨_, hviz _, ?_⟩
  refine bind_eq_ok.mpr ⟨_, hname _, ?_⟩
  refine congrArg (fun member => Except.ok { o with member := member }) (funext fun m => ?_)
  cases m with
  | amqpBrokerOne field => cases field <;> rfl
  | _ => rfl

/-! ## Accepted lines -/

/-- The value of a member no option is given for. -/
def defaultMember (m : Member) : m.type.Value := withDefault m (initialMember m)

section Accepted

variable {r : NumberReader} {line : List Opt}

theorem givenTo_eq_some {m : Member} {opt : Opt} {v : m.type.Value}
    (h : givenTo r m opt = some v) :
    ∃ (name : OptionName) (reading : Reading m.type) (optarg : Option Text),
      row name = some ⟨m, reading⟩ ∧ reading.given r optarg = some v := by
  cases opt with
  | other text optarg =>
    simp only [givenTo] at h
    split at h
    · rename_i m' reading hrow
      obtain ⟨name, -, hrow⟩ := Option.bind_eq_some_iff.mp hrow
      split at h
      · rename_i hm
        subst hm
        exact ⟨name, reading, optarg, hrow, h⟩
      · cases h
    · cases h
  | _ => cases h

/-- A string that is given is not replaced by its default. -/
theorem withDefault_of_given {m : Member} {opt : Opt} {v : m.type.Value}
    (h : givenTo r m opt = some v) : withDefault m v = v := by
  obtain ⟨name, reading, optarg, hrow, hgiven⟩ := givenTo_eq_some h
  have hkeep : ∀ default text, orDefault default (stored text) = stored text := fun _ text =>
    if_neg (not_le.mpr (len_stored text))
  cases name <;> cases hrow
  case brokerUrl | brokerQueue | msRestAddress | vehvizNodejsAddress | gnTimestampProperty =>
    cases optarg with
    | none => cases hgiven
    | some text =>
      cases hgiven
      exact hkeep _ text
  all_goals rfl

/-- The checks between the loop and those of the area. -/
theorem finish_eq_ok {o o' : StructOptions} (h : finish o = .ok o') :
    (∀ i < o.numAmqpXEnabled, checkClient o i = .ok ()) ∧ setDefaults o = .ok o' := by
  obtain ⟨u, hchecks, h⟩ := bind_eq_ok.mp h
  refine ⟨fun i hi => ?_, h⟩
  have hall : ∀ l : List ℕ, l.forM (checkClient o) = .ok u → ∀ i ∈ l, checkClient o i = .ok () := by
    intro l
    induction l with
    | nil => exact fun _ i hi => absurd hi List.not_mem_nil
    | cons a l ih =>
      intro hl i hi
      obtain ⟨_, ha, hl⟩ := bind_eq_ok.mp hl
      rcases List.mem_cons.mp hi with rfl | hi
      · exact ha
      · exact ih hl i hi
  exact hall _ hchecks i (List.mem_range.mpr hi)

/-- An accepted line ends its loop, and `finish` passes. -/
theorem structOptions_eq_ok {o : OptionValues (otherOptions r).Members}
    (h : parseOptions r (otherOptions r) line = .ok o) :
    ∃ s, line.foldlM (handleOption r (otherOptions r)) (optionsInitialize (otherOptions r), false) =
        .ok s ∧ finish (structOptions s.1) = .ok (structOptions o) := by
  obtain ⟨⟨t, versionFlg⟩, hloop, h⟩ := bind_eq_ok.mp h
  cases versionFlg with
  | true => cases h
  | false =>
    obtain ⟨others, hfinish, h⟩ := bind_eq_ok.mp h
    obtain ⟨_, -, h⟩ := bind_eq_ok.mp h
    obtain ⟨_, -, h⟩ := bind_eq_ok.mp h
    obtain ⟨_, -, h⟩ := bind_eq_ok.mp h
    obtain ⟨_, -, h⟩ := bind_eq_ok.mp h
    cases h
    exact ⟨_, hloop, mapError_eq_ok.mp hfinish⟩

/-- In the state the loop ends in. -/
theorem members_of_loop {s : OptionValues (otherOptions r).Members × Bool}
    (h : line.foldlM (handleOption r (otherOptions r)) (optionsInitialize (otherOptions r), false) =
      .ok s) (m : Member) :
    (structOptions s.1).member m = (lastGiven (givenTo r m) line).getD (initialMember m) ∧
      InRange m ((structOptions s.1).member m) ∧
      (GivenOnce m → (line.filterMap (givenTo r m)).length ≤ 1) := by
  refine ⟨?_, ?_, fun honce => ?_⟩
  · refine foldlM_lastGiven (π := fun s => (structOptions s.1).member m) ?_ h
    intro s opt s' hs
    rcases member_step hs m with ⟨hgiven, -⟩ | ⟨hnone, heq⟩
    · rw [hgiven, Option.getD_some]
    · rw [hnone, Option.getD_none, heq]
  · have hstep : ∀ (pre : List Opt) s opt s', InRange m ((structOptions s.1).member m) →
        handleOption r (otherOptions r) s opt = .ok s' →
        InRange m ((structOptions s'.1).member m) := by
      intro _ s opt s' hs hopt
      rcases member_step hopt m with ⟨-, hrange, -⟩ | ⟨-, heq⟩
      · exact hrange
      · rw [heq]
        exact hs
    have hinitial : InRange m ((structOptions (optionsInitialize (otherOptions r))).member m) :=
      inRange_initialMember m
    exact foldlM_invariant (fun _ s => InRange m ((structOptions s.1).member m)) hstep hinitial h
  · refine foldlM_once (fun s => Closed ((structOptions s.1).member m)) ?_ ?_ h
    · intro s opt s' v hs hv
      rcases member_step hs m with ⟨-, -, hclosed⟩ | ⟨hnone, -⟩
      · exact hclosed honce
      · rw [hnone] at hv
        cases hv
    · intro s opt s' hs hnone hclosed
      rcases member_step hs m with ⟨hgiven, -⟩ | ⟨-, heq⟩
      · rw [hgiven] at hnone
        cases hnone
      · simpa only [heq] using hclosed

/-- Every member holds what the last of its options has given, its default
without one, and its value passes its checks. A string and the age check
are given once at most. -/
theorem members_of_accepted {o : OptionValues (otherOptions r).Members}
    (h : parseOptions r (otherOptions r) line = .ok o) (m : Member) :
    (structOptions o).member m = (lastGiven (givenTo r m) line).getD (defaultMember m) ∧
      Usable m ((structOptions o).member m) ∧
      (GivenOnce m → (line.filterMap (givenTo r m)).length ≤ 1) := by
  obtain ⟨s, hloop, hfinish⟩ := structOptions_eq_ok h
  have hrange := fun m => (members_of_loop hloop m).2.1
  obtain ⟨hvalue, -, honce⟩ := members_of_loop hloop m
  have hdefaults := (finish_eq_ok hfinish).2
  rw [setDefaults_eq hrange] at hdefaults
  have hfinal : (structOptions o).member m = withDefault m ((structOptions s.1).member m) := by
    rw [← Except.ok.inj hdefaults]
  refine ⟨?_, ?_, honce⟩
  · rw [hfinal, hvalue]
    cases hgiven : lastGiven (givenTo r m) line with
    | none => rfl
    | some v =>
      obtain ⟨opt, -, hv⟩ := mem_of_lastGiven hgiven
      exact withDefault_of_given hv
  · rw [hfinal]
    exact usable_withDefault (hrange m)

end Accepted

end SLDM.Options
