/-
SLDM.Options.AdditionalClients — the additional AMQP clients after a line
that is accepted.

`--amqp-enable-additionals` allocates the clients anew, so the lists before
its last occurrence are lost. After it each list gives its `i`-th item to
the field of the client `i`, and the types differ in what a second list
for the same field does: a string keeps the first item that is short
enough, a truth value is that of the last list, and a number is the first
one of the last list. `additionals_of_accepted` states this for every
accepted line (`valueGiven`), with the broker and the topic set for every
client.
-/
import Mathlib.Data.List.DropRight
import SLDM.Options.StructOptionsTheorems
import SLDM.Options.Subscription

namespace SLDM.Options

open Lines Decimal QuadKey Runs

/-! ## The items of a list -/

/-- What `strtok_r` finds in a text: the pieces between the commas that
are not empty. -/
def items (s : Text) : List Text := (s.splitOn ',').filter (· ≠ [])

theorem items_nil : items [] = [] := rfl

theorem items_comma (s : Text) : items (',' :: s) = items s := by
  have hsplit : (',' :: s).splitOn ',' = [] :: s.splitOn ',' := by
    rw [← List.nil_append (',' :: s), List.splitOn_append_cons_self_of_not_mem List.not_mem_nil]
  rw [items, hsplit, List.filter_cons, if_neg (by decide)]
  rfl

/-- The commas in front of a text hold no item. -/
theorem items_dropWhile (s : Text) : items (s.dropWhile (· == ',')) = items s := by
  induction s with
  | nil => rfl
  | cons c s ih =>
    rw [List.dropWhile_cons]
    split
    · rename_i hc
      rw [ih, beq_iff_eq.mp hc, items_comma]
    · rfl

/-- An item ends at a comma or with the text. -/
theorem items_append {item : Text} (hne : item ≠ []) (hcomma : ',' ∉ item) (rest : Text) :
    items item = [item] ∧ items (item ++ ',' :: rest) = item :: items rest := by
  constructor
  · rw [items, List.splitOn_eq_singleton hcomma, List.filter_cons, if_pos (by simpa using hne)]
    rfl
  · rw [items, List.splitOn_append_cons_self_of_not_mem hcomma, List.filter_cons,
      if_pos (by simpa using hne)]
    rfl

/-- `strtok_r` finds the first item and leaves the others. -/
theorem items_of_strtok (s : Text) :
    (strtok s = none ∧ items s = []) ∨
      ∃ item rest, strtok s = some (item, rest) ∧ items s = item :: items rest := by
  rw [← items_dropWhile]
  unfold strtok
  simp only
  cases hstart : s.dropWhile (· == ',') with
  | nil => exact Or.inl ⟨rfl, items_nil⟩
  | cons c t =>
    right
    have hc : (c != ',') = true := by
      have hhead := List.head?_dropWhile_not (· == ',') s
      rw [hstart] at hhead
      simpa using hhead
    have hne : (c :: t).takeWhile (· != ',') ≠ [] := by
      rw [List.takeWhile_cons, if_pos hc]
      exact List.cons_ne_nil _ _
    have hcomma : ',' ∉ (c :: t).takeWhile (· != ',') := by
      intro hmem
      have hfirst := List.mem_takeWhile_imp hmem
      simp at hfirst
    refine ⟨_, _, rfl, ?_⟩
    have hsplit := List.takeWhile_append_dropWhile (p := (· != ',')) (l := c :: t)
    cases hrest : (c :: t).dropWhile (· != ',') with
    | nil =>
      rw [hrest, List.append_nil] at hsplit
      rw [List.drop_nil, items_nil]
      nth_rewrite 1 [← hsplit]
      exact (items_append hne hcomma []).1
    | cons d rest =>
      have hd : d = ',' := by
        have hhead := List.head?_dropWhile_not (· != ',') (c :: t)
        rw [hrest] at hhead
        simpa using hhead
      subst hd
      rw [hrest] at hsplit
      nth_rewrite 1 [← hsplit]
      exact (items_append hne hcomma rest).2

/-! ## One list -/

/-- The clients from `i` on after a list: each has read its own item, and
nothing else has changed. -/
structure Filled (field : ConfigField) (optarg : Text) (left i : ℕ) (rest : Text)
    (opts opts' : ℕ → BrokerOptions) : Prop where
  each : ∀ j < left, ∃ item, (items rest)[j]? = some item ∧
    readItem field.type optarg item (opts (i + j) field) = some (opts' (i + j) field)
  others : ∀ k f, f ≠ field ∨ k < i → opts' k f = opts k f

/-- A loop that counts up to the last client has filled all of them. -/
theorem filled_of_fillLoop {field : ConfigField} {optarg : Text} {left i : ℕ} {rest : Text}
    {opts opts' : ℕ → BrokerOptions}
    (h : fillLoop field optarg left i rest opts = (some (i + left), opts')) :
    Filled field optarg left i rest opts opts' := by
  -- the clients behind `i` are filled by the rest of the loop, which leaves `i` alone
  induction left generalizing i rest opts with
  | zero =>
    cases h
    exact ⟨fun j hj => absurd hj (Nat.not_lt_zero j), fun _ _ _ => rfl⟩
  | succ left ih =>
    rw [fillLoop] at h
    rcases items_of_strtok rest with ⟨hnone, -⟩ | ⟨item, rest', hsome, hitems⟩
    · simp only [hnone, Prod.mk.injEq, Option.some.injEq] at h
      omega
    · simp only [hsome] at h
      cases hread : readItem field.type optarg item (opts i field) with
      | none =>
        simp only [hread, Prod.mk.injEq, reduceCtorEq, false_and] at h
      | some v =>
        simp only [hread] at h
        rw [Nat.add_comm left 1, ← Nat.add_assoc] at h
        obtain ⟨heach, hothers⟩ := ih h
        refine ⟨fun j hj => ?_, fun k f hk => ?_⟩
        · rw [hitems]
          cases j with
          | zero =>
            refine ⟨item, rfl, ?_⟩
            rw [Nat.add_zero, hothers i field (Or.inr (Nat.lt_succ_self i)), Function.update_self,
              Function.update_self]
            exact hread
          | succ j =>
            obtain ⟨next, hnext, hvalue⟩ := heach j (Nat.lt_of_succ_lt_succ hj)
            refine ⟨next, hnext, ?_⟩
            rw [Function.update_of_ne (by omega), Nat.add_assoc, Nat.add_comm 1 j] at hvalue
            exact hvalue
        · rcases hk with hf | hk
          · rw [hothers k f (Or.inl hf)]
            by_cases hki : k = i
            · rw [hki, Function.update_self, Function.update_of_ne hf]
            · rw [Function.update_of_ne hki]
          · rw [hothers k f (Or.inr (Nat.lt_succ_of_lt hk)), Function.update_of_ne (by omega)]

/-! ## All lists -/

/-- What an item is stored as: a space stands for the empty string. -/
def itemText (item : Text) : Text := if item = [' '] then [] else item

/-- The `i`-th item of a list, if it can be stored. -/
def stringItem (i : ℕ) (list : Text) : Option Text :=
  ((items list)[i]?.map itemText).filter fun text => (text.length : ℤ) < maxOptionsStringLen

/-- What lists for a field of a type give to the client `i`. -/
def valueGiven (i : ℕ) : (type : ConfigType) → type.Value → List Text → type.Value
  | .optionsString, initial, lists =>
    ((lists.filterMap (stringItem i)).head?.map stored).getD initial
  | .bool, initial, lists =>
    (lists.getLast?.map fun list => decide ((items list)[i]? = some textTrue)).getD initial
  | .long, initial, lists => (lists.getLast?.map fun list => strtol (firstToken list)).getD initial

theorem valueGiven_nil (i : ℕ) (type : ConfigType) (initial : type.Value) :
    valueGiven i type initial [] = initial := by
  cases type <;> rfl

/-- A push leaves a string that holds a text as it is. -/
theorem readItem_string (optarg item : Text) (old : OptionsString) :
    readItem .optionsString optarg item old = some (optionsStringPush old (itemText item)).2 := by
  simp only [readItem, itemText]
  split <;> rfl

/-- A value that is read is one of the words. -/
theorem readItem_bool {optarg item : Text} {old v : Bool}
    (h : readItem .bool optarg item old = some v) : v = decide (item = textTrue) := by
  have hfalse : textFalse ≠ textTrue := by decide
  have hdefault : textDefault ≠ textTrue := by decide
  simp only [readItem] at h
  split_ifs at h with htrue hitem hitem
  · cases h
    rw [decide_eq_true htrue]
  · cases h
    rw [decide_eq_false (hitem ▸ hfalse)]
  · cases h
    rw [decide_eq_false (hitem ▸ hdefault)]

/-- One more list. -/
theorem valueGiven_concat {i : ℕ} {type : ConfigType} {initial v : type.Value}
    {lists : List Text} {list item : Text} (hinitial : Unset type initial)
    (hitem : (items list)[i]? = some item)
    (h : readItem type list item (valueGiven i type initial lists) = some v) :
    v = valueGiven i type initial (lists ++ [list]) := by
  cases type with
  | optionsString =>
    have hstring : stringItem i list =
        if ((itemText item).length : ℤ) < maxOptionsStringLen then some (itemText item)
        else none := by
      rw [stringItem, hitem, Option.map_some, Option.filter_some]
      simp only [decide_eq_true_eq]
    have hlast : valueGiven i .optionsString initial (lists ++ [list]) =
        (((lists.filterMap (stringItem i) ++ [list].filterMap (stringItem i)).head?.map
          stored).getD initial) := by
      rw [valueGiven, List.filterMap_append]
    rw [hlast, List.filterMap_cons, hstring]
    -- the first item that can be stored is kept, whatever follows
    cases hgiven : lists.filterMap (stringItem i) with
    | nil =>
      have hold : valueGiven i .optionsString initial lists = initial := by
        rw [valueGiven, hgiven]
        rfl
      have hbuf : (show OptionsString from initial).buf = none := hinitial
      rw [readItem_string, hold, optionsStringPush_eq] at h
      by_cases hlen : ((itemText item).length : ℤ) < maxOptionsStringLen
      · rw [if_pos ⟨hbuf, hlen⟩] at h
        rw [if_pos hlen]
        exact (Option.some.inj h).symm
      · rw [if_neg fun hboth => hlen hboth.2] at h
        rw [if_neg hlen]
        exact (Option.some.inj h).symm
    | cons first others =>
      have hold : valueGiven i .optionsString initial lists = stored first := by
        rw [valueGiven, hgiven]
        rfl
      rw [readItem_string, hold, optionsStringPush_eq, if_neg (fun hboth => nomatch hboth.1)] at h
      exact (Option.some.inj h).symm
  | bool =>
    rw [valueGiven, List.getLast?_concat, Option.map_some, Option.getD_some, hitem]
    rw [readItem_bool h]
    simp only [Option.some.injEq]
  | long =>
    rw [valueGiven, List.getLast?_concat, Option.map_some, Option.getD_some]
    exact (Option.some.inj h).symm

/-! ## The line -/

/-- The number of clients `--amqp-enable-additionals` asks for. -/
def enabledNumber : Opt → Option ℕ
  | .other text (some optarg) =>
    if longOpts.lookup text = some .amqpEnableAdditionals then
      some (strtol optarg % 2 ^ 32).toNat
    else none
  | _ => none

/-- The list an option gives for a field. -/
def listFor (field : ConfigField) : Opt → Option Text
  | .other text (some optarg) =>
    if longOpts.lookup text = some (.amqpAdditionals field) then some optarg else none
  | _ => none

/-- The lists for a field after the last time clients are enabled. -/
def listsGiven (field : ConfigField) (line : List Opt) : List Text :=
  (line.rtakeWhile fun opt => (enabledNumber opt).isNone).filterMap (listFor field)

theorem listsGiven_concat {opt : Opt} (h : enabledNumber opt = none) (field : ConfigField)
    (line : List Opt) :
    listsGiven field (line ++ [opt]) = listsGiven field line ++ (listFor field opt).toList := by
  rw [listsGiven, List.rtakeWhile_concat_pos _ _ _ (by rw [h]; rfl), List.filterMap_append,
    listsGiven, List.filterMap_cons, List.filterMap_nil]
  cases listFor field opt <;> rfl

theorem listsGiven_enabled {opt : Opt} {n : ℕ} (h : enabledNumber opt = some n)
    (field : ConfigField) (line : List Opt) : listsGiven field (line ++ [opt]) = [] := by
  rw [listsGiven, List.rtakeWhile_concat_neg _ _ _ (by rw [h]; exact Bool.false_ne_true)]
  rfl

/-- The additional clients are what the line so far says. -/
structure Additionals (line : List Opt) (o : StructOptions) : Prop where
  number : o.numAmqpXEnabled = (lastGiven enabledNumber line).getD 0
  bound : o.numAmqpXEnabled ≤ 9
  fields : ∀ i < o.numAmqpXEnabled, ∀ field, o.amqpBrokerX i field =
    valueGiven i field.type (brokerOptionsInitialize field) (listsGiven field line)

theorem unset_brokerOptions (field : ConfigField) :
    Unset field.type (brokerOptionsInitialize field) := by
  cases field <;> first | rfl | trivial

theorem lastGiven_concat {α : Type} (f : Opt → Option α) (line : List Opt) (opt : Opt) :
    lastGiven f (line ++ [opt]) = (f opt).or (lastGiven f line) := by
  unfold lastGiven
  rw [List.filterMap_append, List.filterMap_cons, List.filterMap_nil]
  cases f opt with
  | none => rw [List.append_nil, Option.none_or]
  | some v => rw [List.getLast?_concat, Option.some_or]

section Line

variable {r : NumberReader} {line : List Opt} {o o' : StructOptions}

/-- An option that neither enables clients nor lists a field of theirs. -/
theorem Additionals.skip {opt : Opt} (h : Additionals line o) (hnumber : enabledNumber opt = none)
    (hlist : ∀ field, listFor field opt = none) (hsame : o'.numAmqpXEnabled = o.numAmqpXEnabled)
    (hbroker : o'.amqpBrokerX = o.amqpBrokerX) : Additionals (line ++ [opt]) o' where
  number := by rw [hsame, h.number, lastGiven_concat, hnumber, Option.none_or]
  bound := hsame ▸ h.bound
  fields := by
    intro i hi field
    rw [hbroker, h.fields i (hsame ▸ hi) field, listsGiven_concat hnumber, hlist field,
      Option.toList_none, List.append_nil]

/-- `--amqp-enable-additionals` starts again. -/
theorem Additionals.enable {text : String} {optarg : Text}
    (hlookup : longOpts.lookup text = some .amqpEnableAdditionals)
    (h : enableAdditionals o optarg = .ok o') :
    Additionals (line ++ [.other text (some optarg)]) o' := by
  have hnumber : enabledNumber (.other text (some optarg)) =
      some (strtol optarg % 2 ^ 32).toNat := if_pos hlookup
  unfold enableAdditionals at h
  simp only at h
  split_ifs at h with hdigits hrange
  cases h
  simp only [Bool.or_eq_true, decide_eq_true_eq, not_or, not_lt] at hrange
  refine ⟨?_, hrange.2, fun i _ field => ?_⟩
  · rw [lastGiven_concat, hnumber]
    rfl
  · rw [listsGiven_enabled hnumber, valueGiven_nil]

/-- A list is read by every client. -/
theorem Additionals.configure {text : String} {field : ConfigField} {optarg : Text}
    (hlookup : longOpts.lookup text = some (.amqpAdditionals field))
    (h : Additionals line o) (hfill : configureAdditionals o field optarg = .ok o') :
    Additionals (line ++ [.other text (some optarg)]) o' := by
  have hnumber : enabledNumber (.other text (some optarg)) = none :=
    if_neg (by rw [hlookup]; exact nofun)
  unfold configureAdditionals at hfill
  split at hfill
  · cases hfill
  · split at hfill
    · rename_i brokerOpts harray
      cases hfill
      have hloop : fillLoop field optarg o.numAmqpXEnabled 0 optarg o.amqpBrokerX =
          (some (0 + o.numAmqpXEnabled), brokerOpts) := by
        unfold fillAMQPClientOptionsArray at harray
        split at harray
        · rename_i cnt opts hres
          simp only [Prod.mk.injEq, beq_iff_eq] at harray
          rw [hres, Nat.zero_add, harray.1, harray.2]
        · simp only [Prod.mk.injEq, Bool.false_eq_true, false_and] at harray
      obtain ⟨heach, hothers⟩ := filled_of_fillLoop hloop
      refine ⟨?_, h.bound, fun i hi f => ?_⟩
      · rw [h.number, lastGiven_concat, hnumber, Option.none_or]
      · rw [listsGiven_concat hnumber]
        by_cases hf : f = field
        · subst hf
          obtain ⟨item, hitem, hread⟩ := heach i hi
          rw [Nat.zero_add, h.fields i hi f] at hread
          have hlist : listFor f (.other text (some optarg)) = some optarg := if_pos hlookup
          rw [hlist, Option.toList_some]
          exact valueGiven_concat (unset_brokerOptions f) hitem hread
        · have hlist : listFor f (.other text (some optarg)) = none :=
            if_neg (by rw [hlookup]; exact fun heq => hf (by cases heq; rfl))
          rw [hlist, Option.toList_none, List.append_nil]
          exact (hothers i f (Or.inl hf)).trans (h.fields i hi f)
    · cases hfill

/-- Every accepted option keeps the clients in step with the line. -/
theorem additionals_step {s s' : OptionValues (otherOptions r).Members × Bool} {opt : Opt}
    (h : Additionals line (structOptions s.1))
    (hs : handleOption r (otherOptions r) s opt = .ok s') :
    Additionals (line ++ [opt]) (structOptions s'.1) := by
  rcases handleOption_others hs with ⟨text, optarg, name, rfl, hlookup, hhandle⟩ | ⟨hother, heq⟩
  · cases hrow : row name with
    | none =>
      obtain ⟨-, hcases⟩ := handle_of_no_row hrow hhandle
      rcases hcases with ⟨list, rfl, rfl, henable⟩ | ⟨field, list, rfl, rfl, hfill⟩
      · exact Additionals.enable hlookup henable
      · exact h.configure hlookup hfill
    | some found =>
      obtain ⟨m, reading⟩ := found
      obtain ⟨v, -, -, hassign⟩ := handle_of_row hrow hhandle
      have hname : name ≠ .amqpEnableAdditionals ∧ ∀ field, name ≠ .amqpAdditionals field := by
        constructor
        · rintro rfl
          cases hrow
        · rintro field rfl
          cases hrow
      refine h.skip ?_ ?_ (by rw [hassign]; rfl) (by rw [hassign]; rfl)
      · cases optarg with
        | none => rfl
        | some optarg =>
          exact if_neg (by rw [hlookup]; exact fun heq => hname.1 (Option.some.inj heq))
      · intro field
        cases optarg with
        | none => rfl
        | some optarg =>
          exact if_neg (by rw [hlookup]; exact fun heq => hname.2 field (Option.some.inj heq))
  · have hnot : enabledNumber opt = none ∧ ∀ field, listFor field opt = none := by
      cases opt with
      | other text optarg => exact absurd rfl (hother text optarg)
      | _ => exact ⟨rfl, fun _ => rfl⟩
    exact h.skip hnot.1 hnot.2 (by rw [heq]) (by rw [heq])

/-- A string of a client is the first item that is short enough, or
unset. -/
theorem storedOrUnset_valueGiven (i : ℕ) (lists : List Text) :
    StoredOrUnset (valueGiven i .optionsString optionsStringDeclare lists) := by
  cases hgiven : lists.filterMap (stringItem i) with
  | nil =>
    left
    rw [valueGiven, hgiven]
    rfl
  | cons text others =>
    right
    have hmem : text ∈ lists.filterMap (stringItem i) := hgiven ▸ List.mem_cons_self
    obtain ⟨list, -, hitem⟩ := List.mem_filterMap.mp hmem
    have hlen := (Option.filter_eq_some_iff.mp hitem).2
    refine ⟨text, of_decide_eq_true hlen, ?_⟩
    rw [valueGiven, hgiven]
    rfl

theorem checkClient_eq_ok {i : ℕ} (h : checkClient o i = .ok ()) :
    0 < (show OptionsString from o.amqpBrokerX i .brokerUrl).len ∧
      0 < (show OptionsString from o.amqpBrokerX i .brokerTopic).len := by
  unfold checkClient at h
  simp only at h
  split_ifs at h with hurl htopic
  exact ⟨not_le.mp hurl, not_le.mp htopic⟩

end Line

/-- As many clients as the last `--amqp-enable-additionals` asks for, nine
at most; every field of theirs is what the lists behind it say, and a
broker and a topic are set for each. -/
theorem additionals_of_accepted {r : NumberReader} {line : List Opt}
    {o : OptionValues (otherOptions r).Members}
    (h : parseOptions r (otherOptions r) line = .ok o) :
    Additionals line (structOptions o) ∧
      ∀ i < (structOptions o).numAmqpXEnabled,
        Stored ((structOptions o).amqpBrokerX i .brokerUrl) ∧
          Stored ((structOptions o).amqpBrokerX i .brokerTopic) := by
  obtain ⟨s, hloop, hfinish⟩ := structOptions_eq_ok h
  obtain ⟨hchecks, hdefaults⟩ := finish_eq_ok hfinish
  rw [setDefaults_eq fun m => (members_of_loop hloop m).2.1] at hdefaults
  have hinitial : Additionals [] (structOptions (optionsInitialize (otherOptions r))) :=
    ⟨rfl, Nat.zero_le 9, fun i hi => absurd hi (Nat.not_lt_zero i)⟩
  have hrun : Additionals line (structOptions s.1) :=
    foldlM_invariant (fun pre s => Additionals pre (structOptions s.1))
      (fun _ _ _ _ hpre hs => additionals_step hpre hs) hinitial hloop
  have hset : ∀ i < (structOptions s.1).numAmqpXEnabled,
      Stored ((structOptions s.1).amqpBrokerX i .brokerUrl) ∧
        Stored ((structOptions s.1).amqpBrokerX i .brokerTopic) := by
    intro i hi
    obtain ⟨hurl, htopic⟩ := checkClient_eq_ok (hchecks i hi)
    have hfields := hrun.fields i hi
    constructor
    · rw [hfields .brokerUrl] at hurl ⊢
      exact (storedOrUnset_valueGiven i _).stored hurl
    · rw [hfields .brokerTopic] at htopic ⊢
      exact (storedOrUnset_valueGiven i _).stored htopic
  rw [← Except.ok.inj hdefaults]
  exact ⟨⟨hrun.number, hrun.bound, hrun.fields⟩, hset⟩

/-- Everything `struct options` holds after an accepted line, whatever the
order of its options: the members, the additional clients, the area and
its factors. The numbers of the line are finite ones; the checks would let
`nan` pass. -/
theorem options_of_accepted {r : NumberReader} {line : List Opt}
    {o : OptionValues (otherOptions r).Members}
    (h : parseOptions r (otherOptions r) line = .ok o) :
    (∀ m, (structOptions o).member m = (lastGiven (givenTo r m) line).getD (defaultMember m) ∧
      Usable m ((structOptions o).member m) ∧
      (GivenOnce m → (line.filterMap (givenTo r m)).length ≤ 1)) ∧
    Additionals line (structOptions o) ∧
    (∀ i < (structOptions o).numAmqpXEnabled,
      Stored ((structOptions o).amqpBrokerX i .brokerUrl) ∧
        Stored ((structOptions o).amqpBrokerX i .brokerTopic)) ∧
    lastGiven (areaOf r) line = some o.area ∧ OnGlobe o.area ∧
    o.extLatFactor = (lastGiven (latFactorOf r) line).getD 0 ∧
    o.extLonFactor = (lastGiven (lonFactorOf r) line).getD 0 ∧
    0 ≤ o.extLatFactor ∧ 0 ≤ o.extLonFactor := by
  obtain ⟨hclients, hset⟩ := additionals_of_accepted h
  obtain ⟨-, -, -, -, -, -, hglobe⟩ := parseOptions_eq_ok h
  obtain ⟨hlat, hlon⟩ := factors_of_accepted h
  exact ⟨members_of_accepted h, hclients, hset, area_of_accepted h, hglobe, hlat, hlon,
    factors_nonneg h⟩

/-! ## A line with an additional client -/

/-- The port of the Maneuvering Service is given twice, and two additional
clients are enabled before the one that is configured. -/
def brokerLine : List Opt :=
  [.area "45:7-46:8".toList,
   .other "ms-rest-port" (some "9000".toList),
   .other "amqp-enable-additionals" (some "2".toList),
   .other "broker-url" (some "10.0.0.1:5672".toList),
   .other "ms-rest-port" (some "9001".toList),
   .other "amqp-enable-additionals" (some "1".toList),
   .other "amqp-additionals-url" (some "10.0.0.2:5672".toList),
   .other "amqp-additionals-queue" (some "cams".toList)]

theorem parseOptions_brokerLine :
    ∃ o, parseOptions plainNumbers (otherOptions plainNumbers) brokerLine = .ok o := by
  have hok : (parseOptions plainNumbers (otherOptions plainNumbers) brokerLine).isOk = true := by
    decide +kernel
  cases hparse : parseOptions plainNumbers (otherOptions plainNumbers) brokerLine with
  | error e =>
    rw [hparse] at hok
    cases hok
  | ok o => exact ⟨o, rfl⟩

theorem options_of_accepted_brokerLine :
    ∃ o, parseOptions plainNumbers (otherOptions plainNumbers) brokerLine = .ok o ∧
      (structOptions o).member .msRestPort = (9001 : ℤ) ∧
      (structOptions o).member .msRestAddr = stored defaultManeuveringServiceRestSrvAddr ∧
      (structOptions o).numAmqpXEnabled = 1 ∧
      (structOptions o).amqpBrokerX 0 .brokerUrl = stored "10.0.0.2:5672".toList := by
  obtain ⟨o, ho⟩ := parseOptions_brokerLine
  obtain ⟨hmembers, hclients, -⟩ := options_of_accepted ho
  have hport : @Eq (Option ℤ) (lastGiven (givenTo plainNumbers .msRestPort) brokerLine)
      (some 9001) := by
    decide +kernel
  have haddr : lastGiven (givenTo plainNumbers .msRestAddr) brokerLine = none := by
    decide +kernel
  have henabled : lastGiven enabledNumber brokerLine = some 1 := by decide +kernel
  have hurl : valueGiven 0 .optionsString optionsStringDeclare (listsGiven .brokerUrl brokerLine) =
      stored "10.0.0.2:5672".toList := by
    decide +kernel
  have hone : (structOptions o).numAmqpXEnabled = 1 := by
    rw [hclients.number, henabled]
    rfl
  exact ⟨o, ho, (hmembers .msRestPort).1.trans (congrArg (Option.getD · _) hport),
    (hmembers .msRestAddr).1.trans (congrArg (Option.getD · _) haddr), hone,
    (hclients.fields 0 (by omega) .brokerUrl).trans hurl⟩

end SLDM.Options
