import Cadence.Session

/-!
Effects that depend on nothing but the random words they draw. A conduct says what such an effect does
next: answer, break off, tell an event, or ask for a word. Played in a session, it gives the outcome
and the events that it gives by itself when it is told the words drawn there.
-/
namespace Cadence

inductive Origin where
  | ambient
  | numbered (number : Nat)
  deriving DecidableEq

def Origin.draw : Origin → Effect UInt64
  | ambient => Session.drawAmbient
  | numbered number => Session.draw number

abbrev Words := Origin → List Word

def Words.use (origin : Origin) (words : Words) : Words :=
  fun other => if other = origin then (words other).tail else words other

namespace Source

def since (before after : Source) : List Word :=
  (List.range' before.drawn (after.drawn - before.drawn)).map before.stream.word

def next (source : Source) : Source := { source with drawn := source.drawn + 1 }

theorem since_next {before after : Source} (later : before.next.drawn ≤ after.drawn) :
    before.since after = before.upcoming :: before.next.since after := by
  have count : after.drawn - before.drawn = (after.drawn - before.next.drawn) + 1 := by
    simp only [next] at later ⊢
    omega
  simp only [since, count, List.range'_succ, List.map_cons]
  rfl

end Source

namespace Session

def source (session : Session) : Origin → Source
  | .ambient => session.ambient
  | .numbered number => session.sources.getD number (.ofList [])

def drawnSince (before after : Session) : Words :=
  fun origin => (before.source origin).since (after.source origin)

structure Advances (before after : Session) : Prop where
  length : after.sources.length = before.sources.length
  stream : ∀ origin, (after.source origin).stream = (before.source origin).stream
  drawn : ∀ origin, (before.source origin).drawn ≤ (after.source origin).drawn

theorem Advances.of_sources {before after : Session} (sources : after.sources = before.sources)
    (ambient : after.ambient = before.ambient) : before.Advances after := by
  have same : after.source = before.source := by
    funext origin
    cases origin <;> simp only [source, sources, ambient]
  constructor
  · rw [sources]
  · intro origin
    rw [same]
  · intro origin
    exact Nat.le_of_eq (by rw [same])

theorem Advances.trans {before middle after : Session} (first : before.Advances middle)
    (second : middle.Advances after) : before.Advances after where
  length := second.length.trans first.length
  stream origin := (second.stream origin).trans (first.stream origin)
  drawn origin := Nat.le_trans (first.drawn origin) (second.drawn origin)

def advance (origin : Origin) (session : Session) : Session :=
  match origin with
  | .ambient => { session with ambient := session.ambient.next }
  | .numbered number =>
      { session with sources := session.sources.set number (session.source origin).next }

def perform {α : Type} (effect : Effect α) (session : Session) : Except Fault α × Session :=
  match effect session with
  | .ok value after => (.ok value, after)
  | .error fault after => (.error fault, after)

theorem perform_ofExcept {α : Type} (outcome : Except Fault α) (session : Session) :
    perform (MonadExcept.ofExcept outcome) session = (outcome, session) := by
  cases outcome <;> rfl

theorem perform_draw (origin : Origin) (session : Session) :
    perform origin.draw session = ((session.source origin).draw.1, session.advance origin) := by
  cases origin with
  | ambient => exact perform_ofExcept session.ambient.draw.1 (session.advance .ambient)
  | numbered number =>
      exact perform_ofExcept (session.source (.numbered number)).draw.1
        (session.advance (.numbered number))

theorem perform_bind {α β : Type} (first : Effect α) (next : α → Effect β) (session : Session) :
    perform (first >>= next) session =
      match perform first session with
      | (.ok value, middle) => perform (next value) middle
      | (.error fault, middle) => (.error fault, middle) := by
  have bound : (first >>= next) session = EStateM.bind first next session := rfl
  cases ran : first session <;> simp only [perform, bound, EStateM.bind, ran]

theorem latestFirst_advance (origin : Origin) (session : Session) :
    (session.advance origin).latestFirst = session.latestFirst := by
  cases origin <;> rfl

theorem source_advance_ne {origin other : Origin} (differ : other ≠ origin) (session : Session) :
    (session.advance origin).source other = session.source other := by
  cases origin with
  | ambient =>
      cases other with
      | ambient => exact absurd rfl differ
      | numbered number => rfl
  | numbered number =>
      cases other with
      | ambient => rfl
      | numbered other =>
          have apart : number ≠ other := fun same => differ (congrArg Origin.numbered same.symm)
          simp only [advance, source, List.getD_eq_getElem?_getD, List.getElem?_set_ne apart]

def Has (session : Session) : Origin → Prop
  | .ambient => True
  | .numbered number => number < session.sources.length

theorem source_absent {origin : Origin} {session : Session} (absent : ¬session.Has origin) :
    session.source origin = .ofList [] := by
  cases origin with
  | ambient => exact absurd trivial absent
  | numbered number =>
      rw [source, List.getD_eq_getElem?_getD, List.getElem?_eq_none (Nat.le_of_not_lt absent),
        Option.getD_none]

theorem advance_absent {origin : Origin} {session : Session} (absent : ¬session.Has origin) :
    session.advance origin = session := by
  cases origin with
  | ambient => exact absurd trivial absent
  | numbered number =>
      rw [advance, List.set_eq_of_length_le (Nat.le_of_not_lt absent)]

theorem length_advance (origin : Origin) (session : Session) :
    (session.advance origin).sources.length = session.sources.length := by
  cases origin with
  | ambient => rfl
  | numbered number => exact List.length_set

theorem source_advance {origin : Origin} {session : Session} (has : session.Has origin) :
    (session.advance origin).source origin = (session.source origin).next := by
  cases origin with
  | ambient => rfl
  | numbered number =>
      simp only [advance, source, List.getD_eq_getElem?_getD, List.getElem?_set_self has,
        Option.getD_some]

theorem advances_advance (origin : Origin) (session : Session) :
    session.Advances (session.advance origin) := by
  by_cases has : session.Has origin
  · refine ⟨length_advance origin session, ?_, ?_⟩
    · intro other
      by_cases same : other = origin
      · rw [same, source_advance has]
        rfl
      · rw [source_advance_ne same]
    · intro other
      by_cases same : other = origin
      · rw [same, source_advance has]
        exact Nat.le_succ _
      · exact Nat.le_of_eq (by rw [source_advance_ne same])
  · rw [advance_absent has]
    exact .of_sources rfl rfl

theorem drawnSince_advance (origin : Origin) (session : Session) {after : Session}
    (later : (session.advance origin).Advances after) :
    (session.source origin).upcoming = ((session.drawnSince after) origin).headD (.bits 0) ∧
      (session.drawnSince after).use origin = (session.advance origin).drawnSince after := by
  by_cases has : session.Has origin
  · have ahead : (session.source origin).next.drawn ≤ (after.source origin).drawn := by
      rw [← source_advance has]
      exact later.drawn origin
    have drawn : session.drawnSince after origin =
        (session.source origin).upcoming ::
          (session.source origin).next.since (after.source origin) := Source.since_next ahead
    refine ⟨by rw [drawn, List.headD_cons], ?_⟩
    funext other
    by_cases same : other = origin
    · rw [same, Words.use, if_pos rfl, drawn, List.tail_cons, drawnSince, source_advance has]
    · rw [Words.use, if_neg same, drawnSince, drawnSince, source_advance_ne same]
  · have gone : ¬after.Has origin := by
      cases origin with
      | ambient => exact has
      | numbered number =>
          have kept := later.length.trans (length_advance (.numbered number) session)
          rw [Has, kept]
          exact has
    have drawn : session.drawnSince after origin = [] := by
      rw [drawnSince, source_absent has, source_absent gone]
      rfl
    refine ⟨by rw [drawn, source_absent has]; rfl, ?_⟩
    rw [advance_absent has]
    funext other
    by_cases same : other = origin
    · rw [same, Words.use, if_pos rfl, drawn, List.tail_nil]
    · rw [Words.use, if_neg same]

end Session

/-- What an effect does, which asks for words of known origins only. -/
inductive Conduct (known : Origin → Prop) (α : Type) where
  | answer (value : α)
  | breakOff (fault : Fault)
  | tell (event : Event) (rest : Conduct known α)
  | ask (origin : Origin) (knows : known origin) (rest : UInt64 → Conduct known α)

namespace Conduct

variable {known : Origin → Prop} {α β : Type}

def play : Conduct known α → Effect α
  | answer value => pure value
  | breakOff fault => throw fault
  | tell event rest => do Session.emit event; rest.play
  | ask origin _ rest => do (rest (← origin.draw)).play

/-- The outcome and the events, given the words. An origin without words gives zero. -/
def replay : Conduct known α → Words → Except Fault α × List Event
  | answer value, _ => (.ok value, [])
  | breakOff fault, _ => (.error fault, [])
  | tell event rest, words => ((rest.replay words).1, event :: (rest.replay words).2)
  | ask origin _ rest, words =>
      match (words origin).headD (.bits 0) with
      | .bits value => (rest value).replay (words.use origin)
      | .broken => (.error .sourceFailed, [])

protected def bind : Conduct known α → (α → Conduct known β) → Conduct known β
  | answer value, next => next value
  | breakOff fault, _ => breakOff fault
  | tell event rest, next => tell event (rest.bind next)
  | ask origin knows rest, next => ask origin knows fun word => (rest word).bind next

theorem play_bind (first : Conduct known α) (next : α → Conduct known β) :
    (first.bind next).play = first.play >>= fun value => (next value).play := by
  induction first with
  | answer value => exact (pure_bind (m := Effect) value fun value => (next value).play).symm
  | breakOff fault => rfl
  | tell event rest ih => rw [Conduct.bind, play, ih, play, bind_assoc]
  | ask origin knows rest ih =>
      rw [Conduct.bind, play, play, bind_assoc]
      exact bind_congr fun word => ih word

theorem replay_bits {origin : Origin} {knows : known origin} {rest : UInt64 → Conduct known α}
    {words : Words} {word : UInt64} (first : .bits word = (words origin).headD (.bits 0)) :
    (ask origin knows rest).replay words = (rest word).replay (words.use origin) := by
  rw [replay, ← first]

theorem replay_broken {origin : Origin} {knows : known origin} {rest : UInt64 → Conduct known α}
    {words : Words} (first : .broken = (words origin).headD (.bits 0)) :
    (ask origin knows rest).replay words = (.error .sourceFailed, []) := by
  rw [replay, ← first]

theorem replay_silent (silent : ∀ origin, ¬known origin) (conduct : Conduct known α)
    (words words' : Words) : conduct.replay words = conduct.replay words' := by
  induction conduct with
  | answer value => rfl
  | breakOff fault => rfl
  | tell event rest ih => rw [replay, replay, ih]
  | ask origin knows rest _ => exact absurd knows (silent origin)

structure Goes (conduct : Conduct known α) (before after : Session) (outcome : Except Fault α) :
    Prop where
  advances : before.Advances after
  outcome : outcome = (conduct.replay (before.drawnSince after)).1
  events : after.latestFirst =
    (conduct.replay (before.drawnSince after)).2.reverse ++ before.latestFirst

/-- Played in a session, a conduct shows what it shows by itself, given the words drawn there. -/
theorem play_goes (conduct : Conduct known α) (session : Session) :
    conduct.Goes session (Session.perform conduct.play session).2
      (Session.perform conduct.play session).1 := by
  induction conduct generalizing session with
  | answer value => exact ⟨.of_sources rfl rfl, rfl, rfl⟩
  | breakOff fault => exact ⟨.of_sources rfl rfl, rfl, rfl⟩
  | tell event rest ih =>
      let told : Session := { session with latestFirst := event :: session.latestFirst }
      have run : Session.perform (tell event rest).play session =
          Session.perform rest.play told := rfl
      have still : session.Advances told := .of_sources rfl rfl
      have drawn (after : Session) : told.drawnSince after = session.drawnSince after := by
        funext origin
        cases origin <;> rfl
      have goes := ih told
      rw [run]
      refine ⟨still.trans goes.advances, ?_, ?_⟩
      · rw [goes.outcome, drawn, replay]
      · rw [goes.events, drawn, replay, List.reverse_cons, List.append_assoc]
        rfl
  | ask origin knows rest ih =>
      have run : Session.perform (ask origin knows rest).play session =
          match (session.source origin).draw.1 with
          | .ok word => Session.perform (rest word).play (session.advance origin)
          | .error fault => (.error fault, session.advance origin) := by
        rw [play, Session.perform_bind, Session.perform_draw]
        cases (session.source origin).draw.1 <;> rfl
      have still := Session.advances_advance origin session
      -- A broken word is used up like any other, but nothing is drawn after it.
      cases upcoming : (session.source origin).upcoming with
      | bits word =>
          have drawn : (session.source origin).draw.1 = .ok word := by
            rw [Source.draw, upcoming]
          have goes := ih word (session.advance origin)
          obtain ⟨first, rest⟩ := Session.drawnSince_advance origin session goes.advances
          rw [upcoming] at first
          rw [run, drawn]
          refine ⟨still.trans goes.advances, ?_, ?_⟩
          · rw [replay_bits first, rest, goes.outcome]
          · rw [replay_bits first, rest, goes.events, Session.latestFirst_advance]
      | broken =>
          have drawn : (session.source origin).draw.1 = .error .sourceFailed := by
            rw [Source.draw, upcoming]
          have first := (Session.drawnSince_advance origin session
            (Session.Advances.of_sources rfl rfl)).1
          rw [upcoming] at first
          rw [run, drawn]
          refine ⟨still, ?_, ?_⟩
          · rw [replay_broken first]
          · rw [replay_broken first, Session.latestFirst_advance]
            rfl

end Conduct

def Conducted (known : Origin → Prop) {α : Type} (effect : Effect α) : Prop :=
  ∃ conduct : Conduct known α, conduct.play = effect

namespace Conducted

variable {known : Origin → Prop} {α β : Type}

theorem pure (value : α) : Conducted known (Pure.pure value : Effect α) := ⟨.answer value, rfl⟩

theorem throw (fault : Fault) : Conducted known (MonadExcept.throw fault : Effect α) :=
  ⟨.breakOff fault, rfl⟩

theorem trace (tag : String) (arguments : List Argument) :
    Conducted known (Session.trace tag arguments) :=
  ⟨.tell (.called tag arguments) (.answer ()), rfl⟩

theorem draw {origin : Origin} (knows : known origin) : Conducted known origin.draw :=
  ⟨.ask origin knows .answer, bind_pure origin.draw⟩

theorem bind {first : Effect α} {next : α → Effect β} (start : Conducted known first)
    (rest : ∀ value, Conducted known (next value)) : Conducted known (first >>= next) := by
  obtain ⟨conduct, rfl⟩ := start
  obtain ⟨conducts, played⟩ := Classical.skolem.mp rest
  refine ⟨conduct.bind conducts, ?_⟩
  rw [Conduct.play_bind]
  exact bind_congr fun value => played value

theorem map {first : Effect α} (start : Conducted known first) (f : α → β) :
    Conducted known (f <$> first) := by
  rw [← bind_pure_comp]
  exact start.bind fun value => pure (f value)

end Conducted
end Cadence
