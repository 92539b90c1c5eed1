import MemEC.Coordinator.StateTransit

/-!
# The start of a transition

`stateChangeInitHandler` gets a list of servers. It takes those out of the list
that are in the right state, moves them to the next state, and announces this to
clients and servers in one message. If this fails, it goes back, and then it
queues the events of the transition in any case.

The acknowledgements that are reset along with a state are left out.
-/

namespace MemEC.Coordinator

open MemEC.Lib

variable {Srv : Type}

/-- `broadcastState`, where `multicast` tells whether the message was sent. The `7` is
`serverStateRecordSize`, and the `4096` is `MAX_MESSLEN`. -/
def broadcastState (multicast : Bool) (servers : List Srv) : Bool :=
  if servers.length = 0 then multicast
  else if 255 < servers.length ∨ 4096 < servers.length * 7 + 1 then false
  else multicast

/-- The events that `insertRepeatedEvents` inserts when it is called until it succeeds. Each call in
`refusals` is one in which the queue takes that many events and refuses the next one. -/
def insertRepeatedEvents : List ℕ → List Srv → List Srv
  | [], servers => servers
  | accepted :: refusals, servers =>
    if accepted < servers.length then
      servers.take accepted ++ insertRepeatedEvents refusals (servers.drop accepted)
    else servers

theorem insertRepeatedEvents_eq (refusals : List ℕ) (servers : List Srv) :
    insertRepeatedEvents refusals servers = servers := by
  induction refusals generalizing servers with
  | nil => rfl
  | cons accepted refusals ih =>
    rw [insertRepeatedEvents, ih, List.take_append_drop]
    exact ite_self servers

variable [DecidableEq Srv]

/-- A server that does not qualify is skipped: its state is undefined, or not the one in which the
transition starts. -/
def skipsTransition (start : Bool) (state : Common.RemapState) : Bool :=
  state = .undefined || start && state ≠ .normal || !start && state ≠ .degraded

theorem skipsTransition_iff (start : Bool) (state : Common.RemapState) :
    skipsTransition start state = false ↔ state = stateBefore start := by
  cases start <;> cases state <;> decide

/-- What the first loop leaves: `allServers`, `checkedServers` and `serversState`. -/
structure CheckedServers (Srv : Type) where
  allServers : List Srv
  checkedServers : List Srv
  serversState : Srv → Common.RemapState

/-- The first loop, over the servers that it has not seen yet. -/
def checkServers (start : Bool) : List Srv → (Srv → Common.RemapState) → CheckedServers Srv
  | [], serversState => ⟨[], [], serversState⟩
  | server :: servers, serversState =>
    if skipsTransition start (serversState server) then
      let r := checkServers start servers serversState
      { r with allServers := server :: r.allServers }
    else
      let r := checkServers start servers
        (Function.update serversState server (stateDuring start))
      { r with checkedServers := server :: r.checkedServers }

/-- The state of a server is put back, if it is the one of the transition. -/
def revertState (start : Bool) (serversState : Srv → Common.RemapState) (server : Srv) :
    Srv → Common.RemapState :=
  if serversState server = stateDuring start then
    Function.update serversState server (stateBefore start)
  else serversState

/-- The loop that goes back: it runs over the indices of `checkedServers`, but takes the servers from
`allServers`. There is no result when `at` gets an index that is too large. -/
def revertStates (start : Bool) (checked : CheckedServers Srv) : Option (Srv → Common.RemapState) :=
  (List.range checked.checkedServers.length).foldlM
    (fun serversState i => (checked.allServers[i]?).map (revertState start serversState))
    checked.serversState

/-- What `stateChangeInitHandler` leaves behind. -/
structure StateChange (Srv : Type) where
  allServers : List Srv
  serversState : Srv → Common.RemapState
  /-- The servers for which an event was queued. -/
  events : List Srv

/-- `stateChangeInitHandler`. -/
def stateChangeInitHandler (start multicast : Bool) (refusals : List ℕ) (allServers : List Srv)
    (serversState : Srv → Common.RemapState) : Option (StateChange Srv) :=
  let checked := checkServers start allServers serversState
  let events := insertRepeatedEvents refusals checked.checkedServers
  if broadcastState multicast checked.checkedServers then
    some ⟨checked.allServers, checked.serversState, events⟩
  else
    (revertStates start checked).map fun serversState =>
      ⟨checked.allServers ++ checked.checkedServers, serversState, events⟩

/-- Nothing is left of a transition that was not announced. -/
structure RolledBack (serversState : Srv → Common.RemapState) (r : Option (StateChange Srv)) :
    Prop where
  inBounds : r ≠ none
  serversState_eq : ∀ c, r = some c → c.serversState = serversState
  events_eq : ∀ c, r = some c → c.events = []

theorem checkServers_of_skips {start : Bool} {servers : List Srv}
    {serversState : Srv → Common.RemapState}
    (h : ∀ server ∈ servers, serversState server ≠ stateBefore start) :
    checkServers start servers serversState = ⟨servers, [], serversState⟩ := by
  induction servers with
  | nil => rfl
  | cons server servers ih =>
    have hskip : skipsTransition start (serversState server) = true := by
      rw [← Bool.not_eq_false, skipsTransition_iff]
      exact h server List.mem_cons_self
    rw [checkServers, if_pos hskip, ih fun s hs => h s (List.mem_cons_of_mem server hs)]

/-- A server that qualifies is checked, whatever comes before it: a state is only changed to one from
which no transition starts. -/
theorem checkedServers_ne_nil {start : Bool} {servers : List Srv}
    {serversState : Srv → Common.RemapState} {server : Srv} (hmem : server ∈ servers)
    (h : serversState server = stateBefore start) :
    (checkServers start servers serversState).checkedServers ≠ [] := by
  induction servers with
  | nil => cases hmem
  | cons s servers ih =>
    rw [checkServers]
    split_ifs with hskip
    · refine ih ?_
      rcases List.mem_cons.mp hmem with rfl | hmem
      · rw [(skipsTransition_iff _ _).mpr h] at hskip
        cases hskip
      · exact hmem
    · exact List.cons_ne_nil _ _

variable {start multicast : Bool} {refusals : List ℕ} {servers : List Srv}
  {serversState : Srv → Common.RemapState}

/-- When the announcement fails, nothing is left of the transition exactly when no server of the list
is in the state in which it starts. -/
theorem rolledBack_iff
    (h : broadcastState multicast (checkServers start servers serversState).checkedServers = false) :
    RolledBack serversState
        (stateChangeInitHandler start multicast refusals servers serversState) ↔
      ∀ server ∈ servers, serversState server ≠ stateBefore start := by
  constructor
  · intro hrolled server hmem hstate
    obtain ⟨c, hc⟩ := Option.ne_none_iff_exists'.mp hrolled.inBounds
    have hevents := hrolled.events_eq c hc
    simp only [stateChangeInitHandler, h, Bool.false_eq_true, if_false] at hc
    obtain ⟨_, -, rfl⟩ := Option.map_eq_some_iff.mp hc
    dsimp only at hevents
    rw [insertRepeatedEvents_eq] at hevents
    exact checkedServers_ne_nil hmem hstate hevents
  · intro hnone
    have hchecked := checkServers_of_skips hnone
    have hr : stateChangeInitHandler start multicast refusals servers serversState =
        some ⟨servers, serversState, []⟩ := by
      rw [stateChangeInitHandler, if_neg (by rw [h]; exact Bool.false_ne_true), hchecked,
        insertRepeatedEvents_eq, List.append_nil]
      rfl
    rw [hr]
    exact ⟨Option.some_ne_none _, fun c hc => by cases hc; rfl, fun c hc => by cases hc; rfl⟩

/-- A server that is degraded already. -/
theorem rolledBack_degraded : RolledBack (fun _ : ℕ => .degraded)
    (stateChangeInitHandler true false [] [130] fun _ => .degraded) :=
  (rolledBack_iff (by decide)).mpr (by decide)

/-- Server 131 is normal, and server 132 is on its way to the degraded state. -/
def mixedStates (server : ℕ) : Common.RemapState :=
  if server = 131 then .normal else .intermediate

/-- The state of the second server is put back in place of that of the first one. -/
theorem not_rolledBack_of_mixedStates :
    ¬∀ (start multicast : Bool) (refusals servers : List ℕ) (serversState : ℕ → Common.RemapState),
      broadcastState multicast (checkServers start servers serversState).checkedServers = false →
        RolledBack serversState
          (stateChangeInitHandler start multicast refusals servers serversState) := by
  intro h
  have hrolled := h true false [] [131, 132] mixedStates (by decide)
  obtain ⟨c, hc⟩ := Option.ne_none_iff_exists'.mp hrolled.inBounds
  have hstate : (stateChangeInitHandler true false [] [131, 132] mixedStates).map
      (fun c => c.serversState 132) = some .normal := by decide
  rw [hc, Option.map_some, hrolled.serversState_eq c hc] at hstate
  exact absurd hstate (by decide)

end MemEC.Coordinator
