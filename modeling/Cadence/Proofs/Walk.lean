import Cadence.Proofs.Conduct
import Cadence.Recording

/-!
Walks over a schedule: calls of its start and of continuations met before, in any order. Each call
keeps what the steps that led to its node were given.
-/
namespace Cadence

/-- What a step is given: an input, and the words that it draws. -/
structure Given (I : Type) where
  input : I
  words : Words

structure Node (S I : Type) where
  state : S
  path : List (Given I)

/-- A call of a numbered node. If it goes on, its continuation gets the number `upcoming`. -/
structure Call (S I O : Type) where
  number : Nat
  path : List (Given I)
  given : Given I
  outcome : Except Fault (Decision S O)
  events : List Event
  upcoming : Nat

namespace Call

variable {S I O : Type}

def grow (call : Call S I O) (nodes : Array (Node S I)) : Array (Node S I) :=
  match call.outcome with
  | .ok (.proceed _ _ next) => nodes.push ⟨next, call.path ++ [call.given]⟩
  | _ => nodes

def recorded (call : Call S I Value) : Recorded Nat :=
  ⟨call.outcome.map fun decision => decision.redirect fun _ => call.upcoming, call.events⟩

theorem getElem?_grow (call : Call S I O) {nodes : Array (Node S I)} {number : Nat}
    {node : Node S I} (there : nodes[number]? = some node) :
    (call.grow nodes)[number]? = some node := by
  have inside : number < nodes.size := (Array.getElem?_eq_some_iff.mp there).1
  rw [grow]
  split
  · rw [Array.getElem?_push_lt inside, ← there, Array.getElem?_eq_getElem inside]
  · exact there

theorem map_state_grow (call : Call S I O) (nodes : Array (Node S I)) :
    (call.grow nodes).map Node.state =
      match call.outcome with
      | .ok (.proceed _ _ next) => (nodes.map Node.state).push next
      | _ => nodes.map Node.state := by
  rw [grow]
  split
  · exact Array.map_push
  · rfl

theorem mem_grow {call : Call S I O} {nodes : Array (Node S I)} {node : Node S I}
    (member : node ∈ call.grow nodes) :
    node ∈ nodes ∨ ∃ output delay, call.outcome = .ok (.proceed output delay node.state) ∧
      node.path = call.path ++ [call.given] := by
  rw [grow] at member
  split at member
  next output delay next proceeds =>
    rcases Array.mem_push.mp member with old | rfl
    · exact .inl old
    · exact .inr ⟨output, delay, proceeds, rfl⟩
  next => exact .inl member

end Call

namespace Schedule

variable {I O : Type} (schedule : Schedule Effect I O)

def call (number upcoming : Nat) (node : Node schedule.State I) (input : I) (session : Session) :
    Call schedule.State I O × Session :=
  let ran := Session.perform (schedule.step node.state input) session.forget
  (⟨number, node.path, ⟨input, session.forget.drawnSince ran.2⟩, ran.1, ran.2.events, upcoming⟩,
    ran.2.forget)

/-- Calls nodes by their numbers. A call that goes on adds a node; one that breaks off leaves the
session as it was then; a number that no node has is no call. -/
def callsFrom : List (Nat × I) → Array (Node schedule.State I) → Session →
    List (Option (Call schedule.State I O))
  | [], _, _ => []
  | (number, input) :: rest, nodes, session =>
      match nodes[number]? with
      | none => none :: callsFrom rest nodes session
      | some node =>
          let (call, after) := schedule.call number nodes.size node input session
          some call :: callsFrom rest (call.grow nodes) after

def calls (walk : List (Nat × I)) (session : Session) :
    List (Option (Call schedule.State I O)) :=
  schedule.callsFrom walk #[⟨schedule.start, []⟩] session

theorem callsFrom_none {nodes : Array (Node schedule.State I)} {number : Nat} {input : I}
    (absent : nodes[number]? = none) (rest : List (Nat × I)) (session : Session) :
    schedule.callsFrom ((number, input) :: rest) nodes session =
      none :: schedule.callsFrom rest nodes session := by
  rw [callsFrom, absent]

theorem callsFrom_some {nodes : Array (Node schedule.State I)} {number : Nat} {input : I}
    {node : Node schedule.State I} (there : nodes[number]? = some node) (rest : List (Nat × I))
    (session : Session) :
    schedule.callsFrom ((number, input) :: rest) nodes session =
      some (schedule.call number nodes.size node input session).1 ::
        schedule.callsFrom rest
          ((schedule.call number nodes.size node input session).1.grow nodes)
          (schedule.call number nodes.size node input session).2 := by
  rw [callsFrom, there]

theorem recordStep_eq_call (schedule : ValueSchedule) (number upcoming : Nat)
    (node : Node schedule.State Value) (input : Value) (session : Session) :
    schedule.recordStep node.state input session =
      (⟨(schedule.call number upcoming node input session).1.outcome,
          (schedule.call number upcoming node input session).1.events⟩,
        (schedule.call number upcoming node input session).2) := by
  simp only [recordStep, call, Session.perform]
  cases schedule.step node.state input session.forget <;> rfl

theorem walk_eq_callsFrom (schedule : ValueSchedule) (walk : List (Nat × Value))
    (nodes : Array (Node schedule.State Value)) (session : Session) :
    schedule.walk walk (nodes.map Node.state) session =
      (schedule.callsFrom walk nodes session).map (Option.map Call.recorded) := by
  induction walk generalizing nodes session with
  | nil => rfl
  | cons first rest ih =>
      obtain ⟨number, input⟩ := first
      cases there : nodes[number]? with
      | none =>
          rw [callsFrom_none schedule there, Schedule.walk, Array.getElem?_map, there, List.map_cons,
            ← ih]
          rfl
      | some node =>
          rw [callsFrom_some schedule there, Schedule.walk, Array.getElem?_map, there, List.map_cons,
            ← ih, Call.map_state_grow]
          simp only [Option.map_some, recordStep_eq_call schedule number nodes.size, Array.size_map]
          have numbered : (schedule.call number nodes.size node input session).1.upcoming =
              nodes.size := rfl
          rw [Call.recorded, numbered]
          rcases (schedule.call number nodes.size node input session).1.outcome with
            _ | _ | _ <;> rfl

theorem walk_eq_calls (schedule : ValueSchedule) (walk : List (Nat × Value)) (session : Session) :
    schedule.walk walk #[schedule.start] session =
      (schedule.calls walk session).map (Option.map Call.recorded) := by
  have root : #[schedule.start] =
      Array.map Node.state #[(⟨schedule.start, []⟩ : Node schedule.State Value)] := by
    rw [List.map_toArray]
    rfl
  rw [root, walk_eq_callsFrom]
  rfl

theorem callsFrom_path (walk : List (Nat × I)) {nodes : Array (Node schedule.State I)}
    {session : Session} {call : Call schedule.State I O} {node : Node schedule.State I}
    (there : nodes[call.number]? = some node)
    (called : some call ∈ schedule.callsFrom walk nodes session) : call.path = node.path := by
  induction walk generalizing nodes session with
  | nil => cases called
  | cons first rest ih =>
      obtain ⟨number, input⟩ := first
      cases found : nodes[number]? with
      | none =>
          rw [callsFrom_none schedule found] at called
          rcases List.mem_cons.mp called with absent | later
          · cases absent
          · exact ih there later
      | some node' =>
          rw [callsFrom_some schedule found] at called
          rcases List.mem_cons.mp called with this | later
          · cases this
            cases Option.some.inj (there.symm.trans found)
            rfl
          · exact ih (Call.getElem?_grow _ there) later

theorem callsFrom_same_path (walk : List (Nat × I)) {nodes : Array (Node schedule.State I)}
    {session : Session} {call call' : Call schedule.State I O}
    (called : some call ∈ schedule.callsFrom walk nodes session)
    (called' : some call' ∈ schedule.callsFrom walk nodes session)
    (same : call.number = call'.number) : call.path = call'.path := by
  induction walk generalizing nodes session with
  | nil => cases called
  | cons first rest ih =>
      obtain ⟨number, input⟩ := first
      cases found : nodes[number]? with
      | none =>
          rw [callsFrom_none schedule found] at called called'
          rcases List.mem_cons.mp called with absent | later
          · cases absent
          rcases List.mem_cons.mp called' with absent | later'
          · cases absent
          exact ih later later'
      | some node =>
          -- A node that is there keeps its number, so either both calls have its path or both are later.
          by_cases here : call.number = number
          · have first : nodes[call.number]? = some node := by rw [here, found]
            have first' : nodes[call'.number]? = some node := by rw [← same, first]
            rw [schedule.callsFrom_path _ first called, schedule.callsFrom_path _ first' called']
          · have later := called
            have later' := called'
            rw [callsFrom_some schedule found] at later later'
            rcases List.mem_cons.mp later with this | later
            · cases this
              exact absurd rfl here
            rcases List.mem_cons.mp later' with this | later'
            · cases this
              exact absurd same here
            exact ih later later'

end Schedule
end Cadence
