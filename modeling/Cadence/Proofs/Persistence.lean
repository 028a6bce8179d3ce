import Cadence.Proofs.RecipeComposed
import Cadence.Proofs.Walk

namespace Cadence

section Answers

variable {known : Origin → Prop} {S I O : Type}
  {conduct : S → I → Conduct known (Decision S O)}

def follow (conduct : S → I → Conduct known (Decision S O)) : S → List (Given I) → Option S
  | state, [] => some state
  | state, given :: path =>
      match ((conduct state given.input).replay given.words).1 with
      | .ok (.proceed _ _ next) => follow conduct next path
      | _ => none

theorem follow_concat {state last next : S} {path : List (Given I)} {given : Given I} {output : O}
    {delay : Duration} (leads : follow conduct state path = some last)
    (proceeds : ((conduct last given.input).replay given.words).1 =
      .ok (.proceed output delay next)) :
    follow conduct state (path ++ [given]) = some next := by
  induction path generalizing state with
  | nil =>
      cases Option.some.inj leads
      rw [List.nil_append, follow, proceeds]
      rfl
  | cons first path ih =>
      rw [List.cons_append, follow]
      rw [follow] at leads
      split at leads
      next => exact ih leads
      next => cases leads

def Call.Answers (conduct : S → I → Conduct known (Decision S O)) (start : S) (call : Call S I O) :
    Prop :=
  ∃ state, follow conduct start call.path = some state ∧
    (conduct state call.given.input).replay call.given.words = (call.outcome, call.events)

namespace Call.Answers

variable {start : S} {call call' : Call S I O}

theorem agree (answers : call.Answers conduct start) (answers' : call'.Answers conduct start)
    (leads : follow conduct start call.path = follow conduct start call'.path)
    (replays : ∀ state, (conduct state call.given.input).replay call.given.words =
      (conduct state call'.given.input).replay call'.given.words) :
    call.outcome = call'.outcome ∧ call.events = call'.events := by
  obtain ⟨state, there, shows⟩ := answers
  obtain ⟨state', there', shows'⟩ := answers'
  have same : state = state' := by
    rw [leads, there'] at there
    exact (Option.some.inj there).symm
  rw [replays, same, shows'] at shows
  exact Prod.mk.inj shows.symm

theorem grows (answers : call.Answers conduct start) {output : O} {delay : Duration} {next : S}
    (proceeds : call.outcome = .ok (.proceed output delay next)) :
    follow conduct start (call.path ++ [call.given]) = some next := by
  obtain ⟨state, leads, shows⟩ := answers
  have shown : ((conduct state call.given.input).replay call.given.words).1 =
      .ok (.proceed output delay next) := by rw [shows, proceeds]
  exact follow_concat leads shown

end Call.Answers

variable {schedule : Schedule Effect I O}
  {conducts : schedule.State → I → Conduct known (Decision schedule.State O)}

theorem Schedule.call_answers
    (played : ∀ state input, (conducts state input).play = schedule.step state input)
    (number upcoming : Nat) {node : Node schedule.State I}
    (leads : follow conducts schedule.start node.path = some node.state) (input : I)
    (session : Session) :
    (schedule.call number upcoming node input session).1.Answers conducts schedule.start := by
  have goes := (conducts node.state input).play_goes session.forget
  rw [played] at goes
  have told := goes.events
  have fresh : session.forget.latestFirst = [] := rfl
  rw [fresh, List.append_nil] at told
  refine ⟨node.state, leads, Prod.ext goes.outcome.symm ?_⟩
  exact (List.reverse_eq_iff.mpr told).symm

theorem Schedule.callsFrom_answer
    (played : ∀ state input, (conducts state input).play = schedule.step state input)
    (walk : List (Nat × I)) {nodes : Array (Node schedule.State I)}
    (lead : ∀ node ∈ nodes, follow conducts schedule.start node.path = some node.state)
    (session : Session) {call : Call schedule.State I O}
    (called : some call ∈ schedule.callsFrom walk nodes session) :
    call.Answers conducts schedule.start := by
  induction walk generalizing nodes session with
  | nil => cases called
  | cons first rest ih =>
      obtain ⟨number, input⟩ := first
      cases there : nodes[number]? with
      | none =>
          rw [callsFrom_none schedule there] at called
          rcases List.mem_cons.mp called with absent | called
          · cases absent
          · exact ih lead session called
      | some node =>
          rw [callsFrom_some schedule there] at called
          have answers := schedule.call_answers played number nodes.size
            (lead node (Array.mem_of_getElem? there)) input session
          rcases List.mem_cons.mp called with this | called
          · cases this
            exact answers
          · refine ih ?_ _ called
            intro later member
            rcases Call.mem_grow member with old | ⟨output, delay, proceeds, path⟩
            · exact lead later old
            · rw [path]
              exact answers.grows proceeds

theorem follow_silent (silent : ∀ origin, ¬known origin) {path path' : List (Given I)}
    (inputs : path.map Given.input = path'.map Given.input) (state : S) :
    follow conduct state path = follow conduct state path' := by
  induction path generalizing path' state with
  | nil => rw [List.map_eq_nil_iff.mp inputs.symm]
  | cons given path ih =>
      cases path' with
      | nil => cases inputs
      | cons given' path' =>
          obtain ⟨input, later⟩ := List.cons.inj inputs
          rw [follow, follow, input,
            (conduct state given'.input).replay_silent silent given.words given'.words]
          split
          · exact ih later _
          · rfl

end Answers

namespace Schedule

variable {known : Origin → Prop} {I O : Type} {schedule : Schedule Effect I O}
  {conducts : schedule.State → I → Conduct known (Decision schedule.State O)}

/-- A run by itself, on the inputs that led to the node of the call, goes on all the way. Given the
input of the call as well, it then does what the call did. -/
def RunsInto (schedule : Schedule Effect I O) (call : Call schedule.State I O) : Prop :=
  ∀ fresh : Session, ∃ entries before after,
    Session.perform (schedule.run (call.path.map Given.input)) fresh = (.ok entries, before) ∧
    entries.length = call.path.length ∧
    Session.perform (schedule.run (call.path.map Given.input ++ [call.given.input])) fresh =
      (call.outcome.map fun decision => entries ++ [(decision.output, decision.delay?)], after) ∧
    after.events = before.events ++ call.events

theorem perform_runFrom_cons (state : schedule.State) (input : I) (inputs : List I)
    (session : Session) :
    Session.perform (schedule.runFrom state (input :: inputs)) session =
      match Session.perform (schedule.step state input) session with
      | (.ok (.done output), after) => (.ok [(output, none)], after)
      | (.ok (.proceed output delay next), after) =>
          let ran := Session.perform (schedule.runFrom next inputs) after
          (ran.1.map fun entries => (output, some delay) :: entries, ran.2)
      | (.error fault, after) => (.error fault, after) := by
  rw [runFrom, Session.perform_bind]
  obtain ⟨outcome, after⟩ := Session.perform (schedule.step state input) session
  rcases outcome with fault | output | ⟨output, delay, next⟩
  · rfl
  · rfl
  · simp only [Session.perform_bind]
    obtain ⟨outcome, later⟩ := Session.perform (schedule.runFrom next inputs) after
    cases outcome <;> rfl

section Silent

variable (silent : ∀ origin, ¬known origin)
  (played : ∀ state input, (conducts state input).play = schedule.step state input)
include silent played

theorem perform_step_silent (state : schedule.State) (input : I) (session : Session)
    (words : Words) :
    (Session.perform (schedule.step state input) session).1 =
        ((conducts state input).replay words).1 ∧
      (Session.perform (schedule.step state input) session).2.events =
        session.events ++ ((conducts state input).replay words).2 := by
  have goes := (conducts state input).play_goes session
  rw [played] at goes
  have drawn := (conducts state input).replay_silent silent words
    (session.drawnSince (Session.perform (schedule.step state input) session).2)
  refine ⟨by rw [drawn, ← goes.outcome], ?_⟩
  rw [Session.events, goes.events, drawn, List.reverse_append, List.reverse_reverse]
  rfl

theorem perform_runFrom_follow {path : List (Given I)} {state last : schedule.State}
    (leads : follow conducts state path = some last) (session : Session) :
    ∃ entries before, entries.length = path.length ∧ ∀ inputs,
      Session.perform (schedule.runFrom state (path.map Given.input ++ inputs)) session =
        ((Session.perform (schedule.runFrom last inputs) before).1.map (entries ++ ·),
          (Session.perform (schedule.runFrom last inputs) before).2) := by
  -- The session changes from step to step; that the path leads on does not depend on it.
  induction path generalizing state session with
  | nil =>
      cases Option.some.inj leads
      refine ⟨[], session, rfl, fun inputs => ?_⟩
      rw [List.map_nil, List.nil_append]
      obtain ⟨outcome, after⟩ := Session.perform (schedule.runFrom last inputs) session
      cases outcome <;> rfl
  | cons given path ih =>
      rw [follow] at leads
      split at leads
      next output delay next proceeds =>
        have first := (perform_step_silent silent played state given.input session given.words).1
        rw [proceeds] at first
        cases ran : Session.perform (schedule.step state given.input) session with
        | mk outcome after =>
            rw [ran] at first
            obtain ⟨entries, before, count, rest⟩ := ih leads after
            refine ⟨(output, some delay) :: entries, before, ?_, fun inputs => ?_⟩
            · rw [List.length_cons, List.length_cons, count]
            · rw [List.map_cons, List.cons_append, perform_runFrom_cons, ran]
              cases first
              simp only [rest]
              cases (Session.perform (schedule.runFrom last inputs) before).1 <;> rfl
      next => cases leads

theorem runsInto {call : Call schedule.State I O}
    (answers : call.Answers conducts schedule.start) : schedule.RunsInto call := by
  intro fresh
  obtain ⟨state, leads, shows⟩ := answers
  obtain ⟨entries, before, count, along⟩ := perform_runFrom_follow silent played leads fresh
  obtain ⟨outcome, events⟩ :=
    perform_step_silent silent played state call.given.input before call.given.words
  have whole := along []
  have last := along [call.given.input]
  rw [shows] at outcome events
  rw [List.append_nil] at whole
  rw [perform_runFrom_cons] at last
  cases ran : Session.perform (schedule.step state call.given.input) before with
  | mk shown after =>
      rw [ran] at outcome events last
      refine ⟨entries, before, after, ?_, count, ?_, events⟩
      · rw [run, whole]
        exact congrArg (fun all => (Except.ok all, before)) (List.append_nil entries)
      · have same : call.outcome = shown := outcome.symm
        rw [run, last, same]
        rcases shown with fault | output | ⟨output, delay, next⟩ <;> rfl

end Silent

end Schedule

/-- In walks over a composed schedule, calls that were given the same on the way to their nodes and
in their own steps show the same. If no closure draws words, it is enough that the inputs are the
same, so a node called again with the same input shows the same again, and every call does what a
run by itself does there. -/
theorem continuations_persist {known : Origin → Prop} {I O : Type} {schedule : Schedule Effect I O}
    (composed : Composed known schedule) :
    (∀ walk session call, some call ∈ schedule.calls walk session →
      ∀ walk' session' call', some call' ∈ schedule.calls walk' session' →
        call.path = call'.path → call.given = call'.given →
          call.outcome = call'.outcome ∧ call.events = call'.events) ∧
    ((∀ origin, ¬known origin) →
      (∀ walk session call, some call ∈ schedule.calls walk session →
        ∀ walk' session' call', some call' ∈ schedule.calls walk' session' →
          call.path.map Given.input = call'.path.map Given.input →
            call.given.input = call'.given.input →
              call.outcome = call'.outcome ∧ call.events = call'.events) ∧
      (∀ walk session call call', some call ∈ schedule.calls walk session →
        some call' ∈ schedule.calls walk session → call.number = call'.number →
          call.given.input = call'.given.input →
            call.outcome = call'.outcome ∧ call.events = call'.events) ∧
      ∀ walk session call, some call ∈ schedule.calls walk session → schedule.RunsInto call) := by
  obtain ⟨conducts, played⟩ := composed.conducts.played
  have answers (walk : List (Nat × I)) (session : Session) (call : Call schedule.State I O)
      (called : some call ∈ schedule.calls walk session) :
      call.Answers conducts schedule.start := by
    refine Schedule.callsFrom_answer played walk ?_ session called
    intro node member
    rw [Array.mem_singleton.mp member]
    rfl
  refine ⟨?_, fun silent => ⟨?_, ?_, ?_⟩⟩
  · intro walk session call called walk' session' call' called' path given
    refine (answers walk session call called).agree (answers walk' session' call' called') ?_ ?_
    · rw [path]
    · intro state
      rw [given]
  · intro walk session call called walk' session' call' called' path input
    refine (answers walk session call called).agree (answers walk' session' call' called') ?_ ?_
    · exact follow_silent silent path schedule.start
    · intro state
      rw [input]
      exact Conduct.replay_silent silent _ _ _
  · intro walk session call call' called called' number input
    refine (answers walk session call called).agree (answers walk session call' called') ?_ ?_
    · rw [schedule.callsFrom_same_path walk called called' number]
    · intro state
      rw [input]
      exact Conduct.replay_silent silent _ _ _
  · intro walk session call called
    exact Schedule.runsInto silent played (answers walk session call called)

/-- The start is called again after a call of it that broke off, and after one that drew the same
words. -/
theorem continuations_persist_recipe :
    let fragile : Recipe := .modify (.primitive (.recurs 2))
      (.doWhile (.traced "keep" (.either (.input (.below 7)) (.fault "seven"))))
    let scattered : Recipe := .modify (.primitive (.spaced (.millis 10))) (.withJitter .full)
    let walk : List (Nat × Value) := [(0, .int 1), (0, .int 7), (0, .int 1), (1, .int 2)]
    (∃ built, Recipe.buildWith [] fragile = .ok built ∧ ∃ call broken again next,
      built.schedule.calls walk {} = [some call, some broken, some again, some next] ∧
      broken.outcome = .error (.raised "seven") ∧
      (again.outcome = call.outcome ∧ again.events = call.events) ∧
      built.schedule.RunsInto broken ∧ built.schedule.RunsInto next) ∧
    ∃ built, Recipe.buildWith [] scattered = .ok built ∧ ∃ call other again next,
      built.schedule.calls walk { ambient := .ofList [.bits 3, .bits 4] } =
        [some call, some other, some again, some next] ∧
      call.given.words .ambient = [.bits 3, .bits 4] ∧
      again.outcome = call.outcome ∧ again.events = call.events := by
  intro fragile scattered walk
  constructor
  · have builds : Recipe.buildWith [] fragile = .ok _ := rfl
    have composed := @Recipe.buildWith_composed (fun _ => False) [] fragile
      (fun draws => absurd draws (by decide)) _ builds
    obtain ⟨-, repeats, runs⟩ := (continuations_persist composed).2 fun _ impossible => impossible
    refine ⟨_, builds, _, _, _, _, rfl, rfl, ?_, ?_, ?_⟩
    · exact repeats walk {} _ _ (.tail _ (.tail _ (.head _))) (.head _) rfl rfl
    · exact runs walk {} _ (.tail _ (.head _))
    · exact runs walk {} _ (.tail _ (.tail _ (.tail _ (.head _))))
  · have builds : Recipe.buildWith [] scattered = .ok _ := rfl
    have composed := @Recipe.buildWith_composed (fun _ => True) [] scattered
      (fun _ _ => trivial) _ builds
    have same := (continuations_persist composed).1
    refine ⟨_, builds, _, _, _, _, rfl, rfl, ?_⟩
    refine same walk { ambient := .ofList [.bits 3, .bits 4] } _ (.tail _ (.tail _ (.head _)))
      walk { ambient := .ofList [.bits 3, .bits 4] } _ (.head _) rfl ?_
    refine congrArg (Given.mk (Value.int 1)) (funext fun origin => ?_)
    cases origin <;> rfl

end Cadence
