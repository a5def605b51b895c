/-
SLDM.Json.DescriptorLoop — one round of `JSONthread_callback`: what the
thread does after `select()` has returned.

`sockdescrs_set` is a `std::set<int>`; the loop walks it with an iterator
and erases behind it. The cursor below is that iterator: `passed` holds
the elements before it, `rest` those from it on, both in increasing
order. A turn of the loop is a partial step (`none` at `end()`), so that a
turn that does not move the iterator is visible.

`rx_buff` outlives the rounds and `recv` overwrites its front only; the
text handed to `json11::Json::parse` is `std::string(rx_buff)`, the bytes
up to the first NUL of the buffer and, when it holds none, of the stack
behind it. What stands there is other variables' business, so each answer
of `recv` comes with its own contents of that memory.

An `fd_set` is a finite set of descriptors here; descriptors at or above
`FD_SETSIZE` are not modelled. The reply (`make_SLDM_json`, `send`) and
the console output do not influence the loop and are left out.
-/
import SLDM.Lib.Loops
import Mathlib.Data.Finset.Sort
import Mathlib.Tactic.Tauto

namespace SLDM.Json

/-! ## The loop -/

/-- What `recv` answers: 0, the bytes received, or a negative value.
`behind` is not part of the answer: it is what the memory behind `rx_buff`
holds when the text is read, up to a NUL. -/
inductive RecvOutcome where
  | closed
  | data (bytes behind : List UInt8)
  | error
  deriving DecidableEq, Repr

/-- The loop variables. `served` logs the calls of `recv` in order and
`rxStrs` the texts handed to the parser. -/
structure Cursor where
  passed : List ℕ
  rest : List ℕ
  sockdescrs : Finset ℕ
  rxBuff : List UInt8
  rxStrs : List (ℕ × List UInt8)
  served : List ℕ

/-- `recv(currd, rx_buff, sizeof(rx_buff), 0)` on the buffer. -/
def fillBuff (rxBuff bytes : List UInt8) : List UInt8 := bytes ++ rxBuff.drop bytes.length

/-- The C string that starts at an address, given the memory from there on. -/
def cString (memory : List UInt8) : List UInt8 := memory.takeWhile (· != 0)

/-- One turn of the descriptor loop. -/
def turn (ready : Finset ℕ) (recv : ℕ → RecvOutcome) (c : Cursor) : Option Cursor :=
  match c.rest with
  | [] => none
  | currd :: later =>
    if currd ∈ ready then
      let c := { c with served := c.served ++ [currd] }
      match recv currd with
      | .closed =>
        some { c with rest := later, sockdescrs := c.sockdescrs.erase currd }
      | .data bytes behind =>
        let rxBuff := fillBuff c.rxBuff bytes
        some { c with passed := c.passed ++ [currd], rest := later, rxBuff,
                      rxStrs := c.rxStrs ++ [(currd, cString (rxBuff ++ behind))] }
      | .error =>
        some { c with passed := c.passed ++ [currd], rest := later }
    else
      -- no branch of the source advances the iterator here
      some c

/-! ## One round of the server -/

/-- What the thread keeps between rounds. -/
structure Server where
  sockd : ℕ
  sockdescrs : Finset ℕ
  sockdescrsSet : Finset ℕ
  rxBuff : List UInt8

/-- What the system answers during a round. -/
structure SocketEvents where
  ready : Finset ℕ
  accept : Option ℕ
  recv : ℕ → RecvOutcome

/-- The iterator at `begin()`. -/
def Server.start (s : Server) : Cursor where
  passed := []
  rest := s.sockdescrsSet.sort
  sockdescrs := s.sockdescrs
  rxBuff := s.rxBuff
  rxStrs := []
  served := []

/-- The server when the loop is left with the iterator at `end()`. -/
def Server.leave (s : Server) (c : Cursor) : Server :=
  { s with sockdescrs := c.sockdescrs, sockdescrsSet := (c.passed ++ c.rest).toFinset,
           rxBuff := c.rxBuff }

/-- A round of the outer loop with at most `fuel` turns of the inner one:
the server afterwards, the descriptors served and the texts parsed. -/
def Server.round (s : Server) (events : SocketEvents) (fuel : ℕ) :
    Option (Server × List ℕ × List (ℕ × List UInt8)) :=
  if s.sockd ∈ events.ready then
    match events.accept with
    | none => some (s, [], [])
    | some connectiond =>
      some ({ s with sockdescrs := insert connectiond s.sockdescrs,
                     sockdescrsSet := insert connectiond s.sockdescrsSet }, [], [])
  else
    (Loops.exec (turn events.ready events.recv) fuel s.start).map fun c =>
      (s.leave c, c.served, c.rxStrs)

/-- The server with these clients connected. -/
def Server.connected (sockd : ℕ) (clients : Finset ℕ) (rxBuff : List UInt8) : Server where
  sockd := sockd
  sockdescrs := insert sockd clients
  sockdescrsSet := clients
  rxBuff := rxBuff

/-! ## What a turn does -/

section Turn

variable {ready : Finset ℕ} {recv : ℕ → RecvOutcome} {c : Cursor} {currd : ℕ} {later : List ℕ}

/-- The iterator stays where it is on a descriptor that is not ready. -/
theorem turn_notReady (hrest : c.rest = currd :: later) (hready : currd ∉ ready) :
    turn ready recv c = some c := by
  simp only [turn, hrest, if_neg hready]

/-- A ready descriptor is served once and left behind; it stays in both
sets unless its connection was closed. -/
theorem turn_ready (recv : ℕ → RecvOutcome) (hrest : c.rest = currd :: later)
    (hready : currd ∈ ready) :
    ∃ c', turn ready recv c = some c' ∧ c'.rest = later ∧
      c'.served = c.served ++ [currd] ∧
      c'.passed = c.passed ++ [currd].filter (recv · ≠ .closed) ∧
      ∀ fd, fd ∈ c'.sockdescrs ↔ fd ∈ c.sockdescrs ∧ ¬ (fd = currd ∧ recv fd = .closed) := by
  simp only [turn, hrest, if_pos hready]
  cases hrecv : recv currd with
  | closed =>
    refine ⟨_, rfl, rfl, rfl, by simp [hrecv], fun fd => ?_⟩
    rw [Finset.mem_erase]
    constructor
    · intro hex
      obtain ⟨hne, hmem⟩ := hex
      exact ⟨hmem, fun h => hne h.1⟩
    · intro hex
      obtain ⟨hmem, hno⟩ := hex
      exact ⟨fun h => hno ⟨h, h ▸ hrecv⟩, hmem⟩
  | data bytes behind =>
    refine ⟨_, rfl, rfl, rfl, by simp [hrecv], fun fd => ⟨fun h => ⟨h, ?_⟩, fun h => h.1⟩⟩
    intro hex
    obtain ⟨rfl, hclosed⟩ := hex
    rw [hrecv] at hclosed
    cases hclosed
  | error =>
    refine ⟨_, rfl, rfl, rfl, by simp [hrecv], fun fd => ⟨fun h => ⟨h, ?_⟩, fun h => h.1⟩⟩
    intro hex
    obtain ⟨rfl, hclosed⟩ := hex
    rw [hrecv] at hclosed
    cases hclosed

end Turn

/-! ## What a whole loop does -/

/-- With every descriptor ready from the iterator on, the loop is left
with each of them served once and the closed ones gone. -/
theorem exec_turn_of_ready {ready : Finset ℕ} (recv : ℕ → RecvOutcome) :
    ∀ {l : List ℕ} {c : Cursor}, c.rest = l → (∀ fd ∈ l, fd ∈ ready) →
      ∃ c', Loops.EndsIn (turn ready recv) c c' ∧ c'.rest = [] ∧
        c'.served = c.served ++ l ∧
        c'.passed = c.passed ++ l.filter (recv · ≠ .closed) ∧
        ∀ fd, fd ∈ c'.sockdescrs ↔ fd ∈ c.sockdescrs ∧ ¬ (fd ∈ l ∧ recv fd = .closed)
  | [], c, hrest, _ => by
      have hdone : turn ready recv c = none := by simp only [turn, hrest]
      exact ⟨c, Loops.endsIn_of_done hdone, hrest, by simp, by simp, by simp⟩
  | currd :: later, c, hrest, hready => by
      obtain ⟨c₁, hturn, hrest₁, hserved₁, hpassed₁, hset₁⟩ :=
        turn_ready recv hrest (hready currd List.mem_cons_self)
      obtain ⟨c', hends, hrest', hserved', hpassed', hset'⟩ :=
        exec_turn_of_ready recv hrest₁
          (fun fd h => hready fd (List.mem_cons_of_mem currd h))
      refine ⟨c', Loops.endsIn_of_turn hturn hends, hrest', ?_, ?_, fun fd => ?_⟩
      · rw [hserved', hserved₁, List.append_assoc]; rfl
      · rw [hpassed', hpassed₁, List.append_assoc, ← List.filter_append]; rfl
      · rw [hset', hset₁, List.mem_cons]
        tauto

/-- The iterator never gets past a descriptor that is not ready. -/
theorem not_terminates_turn {ready : Finset ℕ} {recv : ℕ → RecvOutcome} {c : Cursor}
    (h : ∃ fd ∈ c.rest, fd ∉ ready) : ¬ Loops.Terminates (turn ready recv) c := by
  refine Loops.not_terminates_of_invariant (I := fun c => ∃ fd ∈ c.rest, fd ∉ ready)
    (fun c hc => ?_) h
  obtain ⟨fd, hmem, hfd⟩ := hc
  cases hrest : c.rest with
  | nil => rw [hrest] at hmem; cases hmem
  | cons currd later =>
    by_cases hready : currd ∈ ready
    · obtain ⟨c', hturn, hrest', -⟩ := turn_ready recv hrest hready
      rw [hrest] at hmem
      rcases List.mem_cons.mp hmem with rfl | hmem
      · exact absurd hready hfd
      · exact ⟨c', hturn, fd, hrest' ▸ hmem, hfd⟩
    · exact ⟨c, turn_notReady hrest hready, fd, hmem, hfd⟩

/-! ## What a round does -/

/-- The round ends, every ready client was served exactly once and no
other, and both sets hold the clients still connected. -/
def RoundServes (s : Server) (events : SocketEvents) : Prop :=
  ∃ fuel s' served rxStrs, s.round events fuel = some (s', served, rxStrs) ∧
    (∀ fd, served.count fd = if fd ∈ s.sockdescrsSet ∧ fd ∈ events.ready then 1 else 0) ∧
    (∀ fd, fd ∈ s'.sockdescrsSet ↔
      fd ∈ s.sockdescrsSet ∧ ¬ (fd ∈ events.ready ∧ events.recv fd = .closed)) ∧
    (∀ fd, fd ∈ s'.sockdescrs ↔
      fd ∈ s.sockdescrs ∧
        ¬ (fd ∈ s.sockdescrsSet ∧ fd ∈ events.ready ∧ events.recv fd = .closed))

/-- A round with every connected client ready does its work. -/
theorem roundServes_of_ready {s : Server} {events : SocketEvents}
    (hlisten : s.sockd ∉ events.ready) (hall : s.sockdescrsSet ⊆ events.ready) :
    RoundServes s events := by
  have hmem : ∀ fd, fd ∈ s.start.rest ↔ fd ∈ s.sockdescrsSet := fun fd => Finset.mem_sort _
  obtain ⟨c', ⟨fuel, hexec⟩, hrest, hserved, hpassed, hset⟩ :=
    exec_turn_of_ready events.recv (c := s.start) rfl
      (fun fd h => hall ((hmem fd).mp h))
  refine ⟨fuel, s.leave c', c'.served, c'.rxStrs, ?_, fun fd => ?_, fun fd => ?_, fun fd => ?_⟩
  · rw [Server.round, if_neg hlisten, hexec]; rfl
  · have hnodup : s.start.rest.Nodup := Finset.sort_nodup _ _
    rw [hserved, show s.start.served = [] from rfl, List.nil_append]
    by_cases h : fd ∈ s.sockdescrsSet
    · rw [if_pos ⟨h, hall h⟩, List.count_eq_one_of_mem hnodup ((hmem fd).mpr h)]
    · rw [if_neg fun hh => h hh.1, List.count_eq_zero]
      exact fun hh => h ((hmem fd).mp hh)
  · rw [Server.leave, hrest, hpassed, show s.start.passed = [] from rfl]
    simp only [List.nil_append, List.append_nil, List.mem_toFinset, List.mem_filter, hmem,
      decide_eq_true_eq]
    refine and_congr_right fun h => ?_
    have hr := hall h
    tauto
  · have hstart : s.start.sockdescrs = s.sockdescrs := rfl
    rw [Server.leave, hset, hmem, hstart]
    refine and_congr_right fun _ => not_congr ?_
    exact ⟨fun h => ⟨h.1, hall h.1, h.2⟩, fun h => ⟨h.1, h.2.2⟩⟩

/-- A connected client that is not ready keeps the thread in the loop. -/
theorem not_roundServes_of_notReady {s : Server} {events : SocketEvents}
    (hlisten : s.sockd ∉ events.ready) {fd : ℕ} (hfd : fd ∈ s.sockdescrsSet)
    (hready : fd ∉ events.ready) : ¬ RoundServes s events := by
  intro hex
  obtain ⟨fuel, s', served, rxStrs, hround, -⟩ := hex
  rw [Server.round, if_neg hlisten] at hround
  obtain ⟨c', hexec, -⟩ := Option.map_eq_some_iff.mp hround
  exact not_terminates_turn ⟨fd, (Finset.mem_sort _).mpr hfd, hready⟩ ⟨c', fuel, hexec⟩

/-- With the listening socket quiet, a round does its work exactly when
every connected client is ready. -/
theorem roundServes_iff (sockd : ℕ) (clients : Finset ℕ) (rxBuff : List UInt8)
    (events : SocketEvents) (hsockd : sockd ∉ clients) (hready : events.ready ⊆ clients) :
    RoundServes (Server.connected sockd clients rxBuff) events ↔
      ∀ fd ∈ clients, fd ∈ events.ready := by
  have hlisten : sockd ∉ events.ready := fun h => hsockd (hready h)
  constructor
  · intro hserves fd hfd
    by_contra hno
    exact not_roundServes_of_notReady (s := Server.connected sockd clients rxBuff)
      hlisten hfd hno hserves
  · intro hall
    exact roundServes_of_ready (s := Server.connected sockd clients rxBuff) hlisten hall

/-- Two clients, both ready: the condition and the round. -/
theorem roundServes_bothReady :
    RoundServes (Server.connected 3 {4, 5} []) ⟨{4, 5}, none, fun _ => .closed⟩ ↔
      ∀ fd ∈ ({4, 5} : Finset ℕ), fd ∈ ({4, 5} : Finset ℕ) :=
  roundServes_iff 3 {4, 5} [] ⟨{4, 5}, none, fun _ => .closed⟩ (by decide) (by decide)

/-- Two clients of which only the second sent a request: the thread never
gets to it. -/
theorem not_roundServes_oneReady :
    ¬ RoundServes (Server.connected 3 {4, 5} []) ⟨{5}, none, fun _ => .error⟩ :=
  not_roundServes_of_notReady (by decide) (show 4 ∈ ({4, 5} : Finset ℕ) by decide) (by decide)

end SLDM.Json
