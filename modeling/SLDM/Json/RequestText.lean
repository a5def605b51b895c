/-
SLDM.Json.RequestText — which text a request is parsed as.

All clients share `rx_buff` for the lifetime of the thread: `recv`
overwrites its front, and `std::string(rx_buff)` reads on to the first NUL
whatever the length received. `rxStr_eq` says what that gives: the bytes
received, and unless they contain a NUL, the text that stands behind them
in memory — first what earlier events left in the buffer, then the stack
behind it. Nothing is assumed of the latter: every event brings its own
contents of it (`Receive.behind`), because the other variables of the
thread and of the calls it makes live there.

A request is ISOLATED when, whatever was received before it and whatever
stands behind the buffer, its text is its own bytes up to the first NUL.
`isolated_iff` says which requests are: those that contain a NUL.
`thread_texts` is the connection to the thread: over any rounds of
`Server.round`, whatever the clients do, the texts parsed are those of a
sequence of receive events.
-/
import SLDM.Json.DescriptorLoop
import SLDM.Lib.Runs

namespace SLDM.Json

open Runs

/-! ## Receive events -/

/-- `sizeof(rx_buff)`. -/
def sizeofRxBuff : ℕ := 1024

/-- A call of `recv` that returned data, and what stands behind the
buffer when the text is taken from it. -/
structure Receive where
  currd : ℕ
  bytes : List UInt8
  behind : List UInt8
  fits : bytes.length ≤ sizeofRxBuff

/-- The same bytes from the same client, with other memory behind the
buffer. -/
def Receive.over (e : Receive) (behind : List UInt8) : Receive := { e with behind }

@[simp] theorem Receive.over_bytes (e : Receive) (behind : List UInt8) :
    (e.over behind).bytes = e.bytes := rfl

@[simp] theorem Receive.over_behind (e : Receive) (behind : List UInt8) :
    (e.over behind).behind = behind := rfl

/-- What the call leaves in the buffer. -/
def receive (rxBuff : List UInt8) (e : Receive) : Option (List UInt8) :=
  some (fillBuff rxBuff e.bytes)

/-- `rx_str`, the text handed to `json11::Json::parse`. -/
def rxStr (rxBuff : List UInt8) (e : Receive) : List UInt8 :=
  cString (fillBuff rxBuff e.bytes ++ e.behind)

/-- The buffer after some events. -/
def rxBuffAfter (rxBuff : List UInt8) (es : List Receive) : List UInt8 :=
  es.foldl (fun rxBuff e => fillBuff rxBuff e.bytes) rxBuff

/-- The texts parsed for a sequence of events, with the descriptors. -/
def texts (rxBuff : List UInt8) : List Receive → List (ℕ × List UInt8)
  | [] => []
  | e :: es => (e.currd, rxStr rxBuff e) :: texts (fillBuff rxBuff e.bytes) es

@[simp] theorem rxBuffAfter_nil (rxBuff : List UInt8) : rxBuffAfter rxBuff [] = rxBuff := rfl

theorem rxBuffAfter_append (rxBuff : List UInt8) (es es' : List Receive) :
    rxBuffAfter rxBuff (es ++ es') = rxBuffAfter (rxBuffAfter rxBuff es) es' := by
  simp [rxBuffAfter]

theorem texts_append (rxBuff : List UInt8) (es es' : List Receive) :
    texts rxBuff (es ++ es') = texts rxBuff es ++ texts (rxBuffAfter rxBuff es) es' := by
  induction es generalizing rxBuff with
  | nil => simp [texts]
  | cons e es ih => simp [texts, ih, rxBuffAfter]

/-- What is received after something else is received in one sequence. -/
theorem received_append {rxBuff rxBuff' rxBuff'' : List UInt8}
    {rxStrs rxStrs' : List (ℕ × List UInt8)}
    (h : ∃ es, rxBuff' = rxBuffAfter rxBuff es ∧ rxStrs = texts rxBuff es)
    (h' : ∃ es, rxBuff'' = rxBuffAfter rxBuff' es ∧ rxStrs' = texts rxBuff' es) :
    ∃ es, rxBuff'' = rxBuffAfter rxBuff es ∧ rxStrs ++ rxStrs' = texts rxBuff es := by
  obtain ⟨es, rfl, rfl⟩ := h
  obtain ⟨es', rfl, rfl⟩ := h'
  exact ⟨es ++ es', (rxBuffAfter_append rxBuff es es').symm, (texts_append rxBuff es es').symm⟩

/-- The buffer a run of `receive` reaches. -/
theorem run_receive (rxBuff : List UInt8) (es : List Receive) :
    run receive rxBuff es = some (rxBuffAfter rxBuff es) := by
  induction es generalizing rxBuff with
  | nil => rfl
  | cons e es ih => rw [run_cons_of_step receive rfl, ih]; rfl

/-! ## The thread receives events -/

/-- What `recv` returns fits the length it was given. -/
def RecvFits (recv : ℕ → RecvOutcome) : Prop :=
  ∀ fd bytes behind, recv fd = .data bytes behind → bytes.length ≤ sizeofRxBuff

/-- A turn of the loop receives at most one event. -/
theorem turn_texts {ready : Finset ℕ} {recv : ℕ → RecvOutcome} (hfits : RecvFits recv)
    {c c' : Cursor} (h : turn ready recv c = some c') :
    ∃ es, c'.rxBuff = rxBuffAfter c.rxBuff es ∧ c'.rxStrs = c.rxStrs ++ texts c.rxBuff es := by
  unfold turn at h
  split at h
  · cases h
  · rename_i currd later hrest
    split at h
    · split at h
      · cases h
        exact ⟨[], by simp, by simp [texts]⟩
      · rename_i bytes behind hrecv
        cases h
        exact ⟨[⟨currd, bytes, behind, hfits currd bytes behind hrecv⟩], rfl, rfl⟩
      · cases h
        exact ⟨[], by simp, by simp [texts]⟩
    · cases h
      exact ⟨[], by simp, by simp [texts]⟩

/-- A round of the server receives a sequence of events. -/
theorem round_texts {s s' : Server} {events : SocketEvents} {fuel : ℕ} {served : List ℕ}
    {rxStrs : List (ℕ × List UInt8)} (hfits : RecvFits events.recv)
    (h : s.round events fuel = some (s', served, rxStrs)) :
    ∃ es, s'.rxBuff = rxBuffAfter s.rxBuff es ∧ rxStrs = texts s.rxBuff es := by
  unfold Server.round at h
  split at h
  · split at h
    · cases h
      exact ⟨[], rfl, rfl⟩
    · cases h
      exact ⟨[], rfl, rfl⟩
  · obtain ⟨c, hexec, heq⟩ := Option.map_eq_some_iff.mp h
    cases heq
    let I : Cursor → Prop := fun c =>
      ∃ es, c.rxBuff = rxBuffAfter s.rxBuff es ∧ c.rxStrs = texts s.rxBuff es
    have hkeep : ∀ c c', I c → turn events.ready events.recv c = some c' → I c' := by
      intro c c' hI hturn
      obtain ⟨es', hbuff', hstrs'⟩ := turn_texts hfits hturn
      have hboth := received_append hI ⟨es', hbuff', rfl⟩
      rwa [← hstrs'] at hboth
    exact (Loops.exec_of_invariant hkeep ⟨[], rfl, rfl⟩ hexec).1

/-- One round after the other, with the texts parsed so far. -/
def Server.rounds (st : Server × List (ℕ × List UInt8)) (round : SocketEvents × ℕ) :
    Option (Server × List (ℕ × List UInt8)) :=
  (st.1.round round.1 round.2).map fun out => (out.1, st.2 ++ out.2.2)

/-- Whatever the rounds, the texts parsed are those of the events received
in the buffer the thread started with. -/
theorem thread_texts (s : Server) (rounds : List (SocketEvents × ℕ))
    (hfits : ∀ round ∈ rounds, RecvFits round.1.recv) {st : Server × List (ℕ × List UInt8)}
    (h : run Server.rounds (s, []) rounds = some st) :
    ∃ es, st.1.rxBuff = rxBuffAfter s.rxBuff es ∧ st.2 = texts s.rxBuff es := by
  have hrecv : AllSteps Server.rounds (fun _ round => RecvFits round.1.recv) (s, []) rounds :=
    fun pre round post _ heq _ => hfits round (by rw [heq]; simp)
  let I : Server × List (ℕ × List UInt8) → Prop := fun st =>
    ∃ es, st.1.rxBuff = rxBuffAfter s.rxBuff es ∧ st.2 = texts s.rxBuff es
  have hkeep : ∀ st (round : SocketEvents × ℕ) st', I st → RecvFits round.1.recv →
      Server.rounds st round = some st' → I st' := by
    intro st round st' hI hC hstep
    obtain ⟨⟨s', served, rxStrs⟩, hround, rfl⟩ := Option.map_eq_some_iff.mp hstep
    exact received_append hI (round_texts hC hround)
  have hstart : I (s, []) := ⟨[], rfl, rfl⟩
  exact (allStates_of_allSteps hkeep hstart hrecv).last h

/-! ## The text of one event -/

/-- The text is a function of the bytes received: these, up to the first
NUL. -/
def OwnText (rxBuff : List UInt8) (e : Receive) : Prop := rxStr rxBuff e = cString e.bytes

theorem cString_append_of_mem {bytes : List UInt8} (h : 0 ∈ bytes) (rest : List UInt8) :
    cString (bytes ++ rest) = cString bytes := by
  induction bytes with
  | nil => simp at h
  | cons b bytes ih =>
    by_cases hb : b = 0
    · simp [cString, hb]
    · have hmem : 0 ∈ bytes := by
        rcases List.mem_cons.mp h with heq | hmem
        · exact absurd heq.symm hb
        · exact hmem
      have hrec := ih hmem
      simp only [cString] at hrec
      simp [cString, hb, hrec]

theorem cString_append_of_not_mem {bytes : List UInt8} (h : 0 ∉ bytes) (rest : List UInt8) :
    cString (bytes ++ rest) = bytes ++ cString rest := by
  induction bytes with
  | nil => rfl
  | cons b bytes ih =>
    have hb : b ≠ 0 := fun heq => h (by simp [heq])
    have hrec := ih fun hmem => h (List.mem_cons_of_mem b hmem)
    simp only [cString] at hrec
    simp [cString, hb, hrec]

/-- The bytes received, and without a NUL in them what stands behind them
in memory. -/
theorem rxStr_eq (rxBuff : List UInt8) (e : Receive) :
    rxStr rxBuff e =
      if 0 ∈ e.bytes then cString e.bytes
      else e.bytes ++ cString (rxBuff.drop e.bytes.length ++ e.behind) := by
  unfold rxStr fillBuff
  rw [List.append_assoc]
  split
  · rename_i hmem
    exact cString_append_of_mem hmem _
  · rename_i hmem
    exact cString_append_of_not_mem hmem _

theorem ownText_of_mem {e : Receive} (h : 0 ∈ e.bytes) (rxBuff : List UInt8) :
    OwnText rxBuff e := by
  rw [OwnText, rxStr_eq, if_pos h]

/-- With every event bringing a NUL, the texts are the events' own. -/
theorem texts_of_mem {es : List Receive} (h : ∀ e ∈ es, 0 ∈ e.bytes) (rxBuff : List UInt8) :
    texts rxBuff es = es.map fun e => (e.currd, cString e.bytes) := by
  induction es generalizing rxBuff with
  | nil => rfl
  | cons e es ih =>
    have hown : rxStr rxBuff e = cString e.bytes := ownText_of_mem (h e List.mem_cons_self) rxBuff
    rw [texts, hown, ih fun e' he' => h e' (List.mem_cons_of_mem e he')]
    rfl

/-! ## Requests without a NUL -/

/-- An event that fills the same byte again and again. -/
def Receive.fill (n : ℕ) (b : UInt8) (h : n ≤ sizeofRxBuff) : Receive :=
  ⟨0, List.replicate n b, [], by simpa using h⟩

/-- One byte more than the current event brings, from an earlier one. -/
theorem drop_rxBuffAfter_fill (rxBuff : List UInt8) {n : ℕ} (h : n + 1 ≤ sizeofRxBuff) (b : UInt8) :
    (rxBuffAfter rxBuff [Receive.fill (n + 1) b h]).drop n = b :: rxBuff.drop (n + 1) := by
  have hlen : (List.replicate n b).length = n := List.length_replicate
  have hfill : rxBuffAfter rxBuff [Receive.fill (n + 1) b h] =
      List.replicate n b ++ b :: rxBuff.drop (n + 1) := by
    simp [rxBuffAfter, fillBuff, Receive.fill, List.replicate_succ']
  rw [hfill, List.drop_left' hlen]

/-- Whatever byte is to stand right behind what an event brings, some past
and some memory behind the buffer put it there: an earlier event when the
buffer goes on, the memory behind when the event fills it. -/
theorem behind_eq (rxBuff : List UInt8) (hsize : rxBuff.length = sizeofRxBuff) (e : Receive)
    (b : UInt8) :
    ∃ pre behind rest,
      (rxBuffAfter rxBuff pre).drop e.bytes.length ++ (e.over behind).behind = b :: rest := by
  rcases Nat.lt_or_eq_of_le e.fits with hlt | hfull
  · exact ⟨[Receive.fill _ b hlt], [], _, by
      rw [drop_rxBuffAfter_fill, Receive.over_behind, List.append_nil]⟩
  · exact ⟨[], [b], [], by
      rw [rxBuffAfter_nil, hfull, ← hsize, List.drop_length, Receive.over_behind]; rfl⟩

/-- Without a NUL in the bytes, the text can be made to go on with any
byte that is none, and to stop. -/
theorem rxStr_of_not_mem {rxBuff : List UInt8} (hsize : rxBuff.length = sizeofRxBuff)
    {e : Receive} (hmem : 0 ∉ e.bytes) (b : UInt8) :
    ∃ pre behind rest, rxStr (rxBuffAfter rxBuff pre) (e.over behind) =
      e.bytes ++ if b = 0 then [] else b :: rest := by
  obtain ⟨pre, behind, rest, heq⟩ := behind_eq rxBuff hsize e b
  refine ⟨pre, behind, cString rest, ?_⟩
  rw [rxStr_eq, Receive.over_bytes, if_neg hmem, heq]
  by_cases hb : b = 0 <;> simp [cString, hb]

/-! ## Request isolation -/

/-- After every past and over any memory behind the buffer, the text is
the event's own. -/
def AlwaysOwn (rxBuff : List UInt8) (e : Receive) : Prop :=
  ∀ pre behind, OwnText (rxBuffAfter rxBuff pre) (e.over behind)

/-- The same bytes give the same text in two runs that differ in their
past, each with its own memory behind the buffer. -/
def PastFree (rxBuff : List UInt8) (e : Receive) : Prop :=
  ∀ pre pre' behind behind',
    rxStr (rxBuffAfter rxBuff pre) (e.over behind) =
      rxStr (rxBuffAfter rxBuff pre') (e.over behind')

theorem AlwaysOwn.pastFree {rxBuff : List UInt8} {e : Receive} (h : AlwaysOwn rxBuff e) :
    PastFree rxBuff e := by
  intro pre pre' behind behind'
  have h₁ := h pre behind
  have h₂ := h pre' behind'
  rw [OwnText] at h₁ h₂
  rw [h₁, h₂, Receive.over_bytes, Receive.over_bytes]

/-- Two runs of which one lets the text stop behind the bytes and the
other lets it go on. -/
theorem mem_of_pastFree {rxBuff : List UInt8} (hsize : rxBuff.length = sizeofRxBuff)
    {e : Receive} (h : PastFree rxBuff e) : 0 ∈ e.bytes := by
  by_contra hmem
  obtain ⟨pre, behind, rest, hstop⟩ := rxStr_of_not_mem hsize hmem 0
  obtain ⟨pre', behind', rest', hon⟩ := rxStr_of_not_mem hsize hmem 1
  have hsame := h pre pre' behind behind'
  rw [hstop, hon] at hsame
  simp at hsame

/-- A request's text is its own bytes in every run, and the same in any
two runs that differ before it, exactly when its bytes contain a NUL; and
in a run all of whose requests do, every text is its request's own. -/
theorem isolated_iff (rxBuff : List UInt8) (hsize : rxBuff.length = sizeofRxBuff) :
    (∀ e, AlwaysOwn rxBuff e ↔ 0 ∈ e.bytes) ∧ (∀ e, PastFree rxBuff e ↔ 0 ∈ e.bytes) ∧
      ∀ es, (∀ e ∈ es, 0 ∈ e.bytes) →
        texts rxBuff es = es.map fun e => (e.currd, cString e.bytes) := by
  have hown : ∀ e : Receive, 0 ∈ e.bytes → AlwaysOwn rxBuff e :=
    fun e hmem pre behind => ownText_of_mem (e := e.over behind) hmem _
  refine ⟨fun e => ⟨?_, hown e⟩, fun e => ⟨mem_of_pastFree hsize, ?_⟩, ?_⟩
  · intro h
    exact mem_of_pastFree hsize h.pastFree
  · intro hmem
    exact (hown e hmem).pastFree
  · intro es hmem
    exact texts_of_mem hmem rxBuff

/-- The buffer at the start of a thread whose stack was zero. -/
theorem isolated_iff_zero :
    (∀ e, AlwaysOwn (List.replicate 1024 0) e ↔ 0 ∈ e.bytes) ∧
      (∀ e, PastFree (List.replicate 1024 0) e ↔ 0 ∈ e.bytes) ∧
      ∀ es, (∀ e ∈ es, 0 ∈ e.bytes) →
        texts (List.replicate 1024 0) es = es.map fun e => (e.currd, cString e.bytes) :=
  isolated_iff (List.replicate 1024 0) (List.length_replicate ..)

/-- The bytes of an ASCII text. -/
def ascii (text : String) : List UInt8 := text.toList.map fun c => c.toNat.toUInt8

/-- A request with a position, as the documentation shows it. -/
def longRequest : Receive := ⟨4, ascii "\x7b\"lat\":45,\"lon\":8\x7d", [], by decide⟩

/-- A shorter one, from another client. -/
def shortRequest : Receive := ⟨5, ascii "\x7b\"lat\":45\x7d", [], by decide⟩

/-- The shorter request is parsed with the end of the longer one. -/
theorem shortRequest_not_isolated :
    ¬ AllSteps receive OwnText (List.replicate sizeofRxBuff 0) [longRequest, shortRequest] ∧
      rxStr (rxBuffAfter (List.replicate sizeofRxBuff 0) [longRequest]) shortRequest =
        ascii "\x7b\"lat\":45\x7d\"lon\":8\x7d" ∧
      rxStr (rxBuffAfter (List.replicate sizeofRxBuff 0) []) shortRequest =
        ascii "\x7b\"lat\":45\x7d" := by
  have htext : rxStr (rxBuffAfter (List.replicate sizeofRxBuff 0) [longRequest]) shortRequest =
      ascii "\x7b\"lat\":45\x7d\"lon\":8\x7d" := by decide +kernel
  refine ⟨fun hall => ?_, htext, by decide +kernel⟩
  have hown := hall [longRequest] shortRequest [] _ rfl (run_receive _ _)
  rw [OwnText, htext] at hown
  revert hown
  decide +kernel

end SLDM.Json
