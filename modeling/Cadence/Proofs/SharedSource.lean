import Cadence.Proofs.Factor
import Cadence.Proofs.Sharing

namespace Cadence

open Traced

variable {J P : Type} {number : Nat} {α β : Type}
  {turn : Duration → Source → Except Fault Duration × Source}

/-- Deals from a source on, and what is left of it after them. A turn is what a clone makes of a
delay, and of the source; a decision that is the last takes none. -/
inductive Dealt (turn : Duration → Source → Except Fault Duration × Source) :
    Source → List Deal → Source → Prop where
  | nil {source : Source} : Dealt turn source [] source
  | done {source after : Source} {deals : List Deal} :
      Dealt turn source deals after → Dealt turn source (⟨none, .ok none⟩ :: deals) after
  | proceed {source after : Source} {deals : List Deal} {delay : Duration} :
      Dealt turn (turn delay source).2 deals after →
        Dealt turn source (⟨some delay, (turn delay source).1.map some⟩ :: deals) after

theorem Dealt.append {source middle after : Source} {first second : List Deal}
    (start : Dealt turn source first middle) (finish : Dealt turn middle second after) :
    Dealt turn source (first ++ second) after := by
  induction start with
  | nil => exact finish
  | done _ ih => exact .done (ih finish)
  | proceed _ ih => exact .proceed (ih finish)

/-- A run keeps to the source: its deals go on from there, and one that fails breaks off the run. -/
structure Trail.KeepsTo (turn : Duration → Source → Except Fault Duration × Source) (number : Nat)
    (source : Source) (trail : Trail Fault Session Deal α) : Prop where
  dealt : ∃ after, trail.world.sources[number]? = some after ∧ Dealt turn source trail.deeds after
  breaks : ∀ deal ∈ trail.deeds, ∀ fault, deal.made = .error fault → trail.outcome = .error fault

def Honest (turn : Duration → Source → Except Fault Duration × Source) (number : Nat)
    (traced : Traced Fault Session Deal α) : Prop :=
  ∀ session source, session.sources[number]? = some source →
    (traced session).KeepsTo turn number source

namespace Honest

theorem pure (value : α) : Honest turn number (Pure.pure value) := by
  intro session source has
  constructor
  · exact ⟨source, has, .nil⟩
  · exact nofun

theorem bind {first : Traced Fault Session Deal α} {next : α → Traced Fault Session Deal β}
    (start : Honest turn number first) (rest : ∀ value, Honest turn number (next value)) :
    Honest turn number (first >>= next) := by
  intro session source has
  obtain ⟨⟨middle, left, dealt⟩, breaks⟩ := start session source has
  cases outcome : (first session).outcome with
  | error fault =>
      rw [bind_run_error outcome]
      constructor
      · exact ⟨middle, left, dealt⟩
      · intro deal member failed made
        exact (congrArg _ (Except.error.inj (outcome.symm.trans (breaks deal member failed made))))
  | ok value =>
      obtain ⟨⟨after, remains, more⟩, later⟩ := rest value (first session).world middle left
      rw [bind_run_ok outcome]
      constructor
      · exact ⟨after, remains, dealt.append more⟩
      · intro deal member fault made
        rcases List.mem_append.mp member with early | late
        · exact nomatch outcome.symm.trans (breaks deal early fault made)
        · exact later deal late fault made

theorem spares {effect : Effect α} (spares : Spares number effect) :
    Honest turn number (record (fun _ => []) (fun _ => []) effect) := by
  intro session source has
  have same := spares session
  rw [has] at same
  cases ran : effect session with
  | ok value after =>
      simp only [Session.perform, ran] at same
      rw [record_run_ok _ _ ran]
      constructor
      · exact ⟨source, same, .nil⟩
      · intro deal member
        cases member
  | error fault after =>
      simp only [Session.perform, ran] at same
      rw [record_run_error _ _ ran]
      constructor
      · exact ⟨source, same, .nil⟩
      · intro deal member
        cases member

end Honest

def Takes (turn : Duration → Source → Except Fault Duration × Source) (low high : Binary64)
    (number : Nat) : Prop :=
  ∀ delay session source, session.sources[number]? = some source →
    (Session.perform (jitteredDelay low high number delay) session).1 = (turn delay source).1 ∧
      (Session.perform (jitteredDelay low high number delay) session).2.sources[number]? =
        some (turn delay source).2

section Programs

variable {low high : Binary64} {inner : Schedule Effect J P}

theorem watchedDelay_honest (takes : Takes turn low high number) (delay : Duration) :
    Honest turn number (watchedDelay low high number delay) := by
  intro session source has
  obtain ⟨made, left⟩ := takes delay session source has
  have dealt : Dealt turn source [⟨some delay, (turn delay source).1.map some⟩]
      (turn delay source).2 := .proceed .nil
  rw [← made] at dealt
  cases ran : jitteredDelay low high number delay session with
  | ok jittered after =>
      simp only [Session.perform, ran] at dealt left
      simp only [watchedDelay, ran]
      constructor
      · exact ⟨_, left, dealt⟩
      · intro deal member fault failed
        rw [List.mem_singleton.mp member] at failed
        cases failed
  | error fault after =>
      simp only [Session.perform, ran] at dealt left
      simp only [watchedDelay, ran]
      constructor
      · exact ⟨_, left, dealt⟩
      · intro deal member other failed
        rw [List.mem_singleton.mp member] at failed
        exact congrArg _ (Except.error.inj failed)

theorem watchedClone_honest (takes : Takes turn low high number) (spares : inner.Spares number)
    (state : inner.State) (input : J) :
    Honest turn number (watchedClone inner low high number state input) := by
  apply (Honest.spares (spares state input)).bind
  intro decision
  cases decision with
  | done output =>
      intro session source has
      constructor
      · exact ⟨source, has, .done .nil⟩
      · intro deal member fault failed
        rw [List.mem_singleton.mp member] at failed
        exact nomatch failed
  | proceed output delay next =>
      apply (watchedDelay_honest takes delay).bind
      intro jittered
      exact Honest.pure _

theorem Shared.watched_honest (takes : Takes turn low high number) (spares : inner.Spares number)
    (program : Shared inner number α) : Honest turn number (program.watched low high) := by
  induction program with
  | answer value => exact Honest.pure value
  | breakOff fault =>
      intro session source has
      constructor
      · exact ⟨source, has, .nil⟩
      · exact nofun
  | act after keeps rest ih =>
      intro session source has
      exact ih session (after session) source ((keeps session).trans has)
  | clone state input rest ih => exact (watchedClone_honest takes spares state input).bind ih

def watchAll (low high : Binary64) :
    List (Shared inner number Unit) → Session → List (Trail Fault Session Deal Unit)
  | [], _ => []
  | program :: programs, session =>
      program.watched low high session ::
        watchAll low high programs (program.watched low high session).world

def performAll : List (Effect Unit) → Session → List (Except Fault Unit × Session)
  | [], _ => []
  | effect :: effects, session =>
      Session.perform effect session :: performAll effects (Session.perform effect session).2

def allDeals (trails : List (Trail Fault Session Deal Unit)) : List Deal :=
  trails.flatMap (·.deeds)

def lastWorld (session : Session) (trails : List (Trail Fault Session Deal Unit)) : Session :=
  (trails.getLast?.map (·.world)).getD session

theorem lastWorld_cons (session : Session) (trail : Trail Fault Session Deal Unit)
    (trails : List (Trail Fault Session Deal Unit)) :
    lastWorld session (trail :: trails) = lastWorld trail.world trails := by
  rw [lastWorld, lastWorld, List.getLast?_cons]
  cases trails.getLast? <;> rfl

theorem perform_erase (traced : Traced Fault Session Deal α) (session : Session) :
    Session.perform traced.erase session =
      ((traced session).outcome, (traced session).world) := by
  cases outcome : (traced session).outcome <;>
    simp only [Session.perform, erase, Trail.result, outcome]

theorem performAll_eq (programs : List (Shared inner number Unit)) (session : Session) :
    performAll (programs.map (Shared.play low high)) session =
      (watchAll low high programs session).map fun trail => (trail.outcome, trail.world) := by
  induction programs generalizing session with
  | nil => rfl
  | cons program programs ih =>
      have performed := perform_erase (program.watched low high) session
      rw [Shared.erase_watched] at performed
      rw [List.map_cons, performAll, watchAll, List.map_cons, performed, ih]

theorem watchAll_dealt (takes : Takes turn low high number) (spares : inner.Spares number)
    (programs : List (Shared inner number Unit)) {session : Session} {source : Source}
    (has : session.sources[number]? = some source) :
    ∃ after, (lastWorld session (watchAll low high programs session)).sources[number]? =
        some after ∧ Dealt turn source (allDeals (watchAll low high programs session)) after := by
  induction programs generalizing session source with
  | nil => exact ⟨source, has, .nil⟩
  | cons program programs ih =>
      have keeps := Shared.watched_honest takes spares program session source has
      obtain ⟨middle, left, dealt⟩ := keeps.dealt
      obtain ⟨after, remains, more⟩ := ih left
      refine ⟨after, ?_, dealt.append more⟩
      rw [watchAll, lastWorld_cons]
      exact remains

theorem watchAll_breaks (takes : Takes turn low high number) (spares : inner.Spares number)
    (programs : List (Shared inner number Unit)) {session : Session} {source : Source}
    (has : session.sources[number]? = some source) {trail : Trail Fault Session Deal Unit}
    (member : trail ∈ watchAll low high programs session) {deal : Deal} (dealt : deal ∈ trail.deeds)
    {fault : Fault} (failed : deal.made = .error fault) : trail.outcome = .error fault := by
  induction programs generalizing session source with
  | nil => exact nomatch member
  | cons program programs ih =>
      have keeps := Shared.watched_honest takes spares program session source has
      rcases List.mem_cons.mp member with rfl | member
      · exact keeps.breaks deal dealt fault failed
      · obtain ⟨middle, left, _⟩ := keeps.dealt
        exact ih left member

end Programs

section Reading

variable {source after : Source} {deals : List Deal}

theorem Dealt.ended (dealt : Dealt turn source deals after) {deal : Deal} (member : deal ∈ deals)
    (done : deal.chosen = none) : deal.made = .ok none := by
  induction dealt with
  | nil => exact nomatch member
  | done _ ih =>
      rcases List.mem_cons.mp member with rfl | member
      · rfl
      · exact ih member
  | proceed _ ih =>
      rcases List.mem_cons.mp member with rfl | member
      · exact nomatch done
      · exact ih member

theorem Dealt.turned (dealt : Dealt turn source deals after) {before rest : List Deal}
    {delay : Duration} {made : Except Fault (Option Duration)}
    (split : deals = before ++ ⟨some delay, made⟩ :: rest) :
    ∃ middle, Dealt turn source before middle ∧ made = (turn delay middle).1.map some := by
  induction dealt generalizing before with
  | nil => exact absurd split (by simp)
  | done _ ih =>
      cases before with
      | nil => exact nomatch (List.cons.inj split).1
      | cons deal before =>
          obtain ⟨rfl, later⟩ := List.cons.inj split
          obtain ⟨middle, first, same⟩ := ih later
          exact ⟨middle, .done first, same⟩
  | @proceed source _ _ _ _ ih =>
      cases before with
      | nil =>
          obtain ⟨same, _⟩ := List.cons.inj split
          cases same
          exact ⟨source, .nil, rfl⟩
      | cons deal before =>
          obtain ⟨rfl, later⟩ := List.cons.inj split
          obtain ⟨middle, first, same⟩ := ih later
          exact ⟨middle, .proceed first, same⟩

def continues (deals : List Deal) : Nat := deals.countP (·.chosen.isSome)

def Word.jitter (low high : Binary64) (delay : Duration) : Word → Except Fault Duration
  | .bits word => .ok (delay.scale (Random.fraction word * (high - low) + low))
  | .broken => .error .sourceFailed

def drawing (low high : Binary64) (delay : Duration) (source : Source) :
    Except Fault Duration × Source :=
  (source.upcoming.jitter low high delay, source.next)

def keeping (low : Binary64) (delay : Duration) (source : Source) :
    Except Fault Duration × Source :=
  (.ok (delay.scale low), source)

def refusing (_ : Duration) (source : Source) : Except Fault Duration × Source :=
  (.error .rangeTooWide, source)

theorem Dealt.used {low high : Binary64} (dealt : Dealt (drawing low high) source deals after) :
    after = { source with drawn := source.drawn + continues deals } := by
  induction dealt with
  | nil => rfl
  | done _ ih => exact ih
  | @proceed source _ deals delay _ ih =>
      have one : continues (⟨some delay, (drawing low high delay source).1.map some⟩ :: deals) =
          continues deals + 1 := List.countP_cons_of_pos rfl
      rw [ih, one, Nat.add_comm (continues deals), ← Nat.add_assoc]
      rfl

theorem Dealt.kept {low : Binary64} (dealt : Dealt (keeping low) source deals after) :
    after = source := by
  induction dealt with
  | nil => rfl
  | done _ ih => exact ih
  | proceed _ ih => exact ih

end Reading

section Turns

variable {low high : Binary64} (number : Nat)

theorem takes_drawing (proper : Proper low high) : Takes (drawing low high) low high number := by
  intro delay session source has
  have origin : session.source (.numbered number) = source := by
    rw [Session.source, List.getD_eq_getElem?_getD, has, Option.getD_some]
  have bound : number < session.sources.length := (List.getElem?_eq_some_iff.mp has).1
  have drawn : Session.perform (Session.draw number) session =
      (source.draw.1, session.advance (.numbered number)) := by
    rw [← origin]
    exact Session.perform_draw (.numbered number) session
  have left : (session.advance (.numbered number)).sources[number]? = some source.next := by
    rw [← origin]
    exact List.getElem?_set_self bound
  have chosen : jitteredDelay low high number delay = do
      let word ← Session.draw number
      return delay.scale (Random.fraction word * (high - low) + low) := by
    rw [jitteredDelay, Random.factor_of_proper _ proper, bind_assoc]
    rfl
  rw [chosen, Session.perform_bind, drawn]
  cases upcoming : source.upcoming with
  | bits word =>
      have fine : source.draw.1 = .ok word := by rw [Source.draw, upcoming]
      rw [fine, drawing, upcoming]
      exact ⟨rfl, left⟩
  | broken =>
      have broke : source.draw.1 = .error .sourceFailed := by rw [Source.draw, upcoming]
      rw [broke, drawing, upcoming]
      exact ⟨rfl, left⟩

theorem takes_keeping (improper : Improper low high) : Takes (keeping low) low high number := by
  intro delay session source has
  have chosen : jitteredDelay low high number delay = pure (delay.scale low) := by
    rw [jitteredDelay, Random.factor_of_improper _ improper, pure_bind]
  rw [chosen]
  exact ⟨rfl, has⟩

theorem takes_refusing (wide : TooWide low high) : Takes refusing low high number := by
  intro delay session source has
  have chosen : jitteredDelay low high number delay = throw .rangeTooWide := by
    rw [jitteredDelay, Random.factor_of_tooWide _ wide]
    rfl
  rw [chosen]
  exact ⟨rfl, has⟩

theorem exists_takes (low high : Binary64) : ∃ turn, Takes turn low high number := by
  rcases improper_or_tooWide_or_proper low high with improper | wide | proper
  · exact ⟨_, takes_keeping number improper⟩
  · exact ⟨_, takes_refusing number wide⟩
  · exact ⟨_, takes_drawing number proper⟩

end Turns

/-- Clones use a word for each decision to go on: the first decision the first word, and so on
through all programs. -/
structure UsesWords (low high : Binary64) (source : Source) (deals : List Deal)
    (left : Option Source) : Prop where
  turns : ∀ {before rest : List Deal} {delay : Duration} {made : Except Fault (Option Duration)},
    deals = before ++ ⟨some delay, made⟩ :: rest →
      made = ((source.stream.word (source.drawn + continues before)).jitter low high delay).map some
  used : left = some { source with drawn := source.drawn + continues deals }

structure UsesNone (low : Binary64) (source : Source) (deals : List Deal) (left : Option Source) :
    Prop where
  turns : ∀ {before rest : List Deal} {delay : Duration} {made : Except Fault (Option Duration)},
    deals = before ++ ⟨some delay, made⟩ :: rest → made = .ok (some (delay.scale low))
  unused : left = some source

structure SharesSource (inner : Schedule Effect J P) (number : Nat) (low high : Binary64)
    (programs : List (Shared inner number Unit)) (session : Session) (source : Source) : Prop where
  faithful : performAll (programs.map (Shared.play low high)) session =
    (watchAll low high programs session).map fun trail => (trail.outcome, trail.world)
  ended : ∀ deal ∈ allDeals (watchAll low high programs session),
    deal.chosen = none → deal.made = .ok none
  breaks : ∀ trail ∈ watchAll low high programs session, ∀ deal ∈ trail.deeds, ∀ fault,
    deal.made = .error fault → trail.outcome = .error fault
  proper : Proper low high →
    UsesWords low high source (allDeals (watchAll low high programs session))
      (lastWorld session (watchAll low high programs session)).sources[number]?
  improper : Improper low high →
    UsesNone low source (allDeals (watchAll low high programs session))
      (lastWorld session (watchAll low high programs session)).sources[number]?

theorem shares_source {inner : Schedule Effect J P} (spares : inner.Spares number)
    (low high : Binary64) (programs : List (Shared inner number Unit)) {session : Session}
    {source : Source} (has : session.sources[number]? = some source) :
    SharesSource inner number low high programs session source := by
  constructor
  · exact performAll_eq programs session
  · obtain ⟨turn, takes⟩ := exists_takes number low high
    obtain ⟨after, _, dealt⟩ := watchAll_dealt takes spares programs has
    intro deal member done
    exact dealt.ended member done
  · obtain ⟨turn, takes⟩ := exists_takes number low high
    intro trail member deal dealt fault failed
    exact watchAll_breaks takes spares programs has member dealt failed
  · intro proper
    have takes := takes_drawing number proper
    obtain ⟨after, left, dealt⟩ := watchAll_dealt takes spares programs has
    constructor
    · intro before rest delay made split
      obtain ⟨middle, earlier, same⟩ := dealt.turned split
      rw [same, earlier.used]
      rfl
    · rw [left, dealt.used]
  · intro improper
    have takes := takes_keeping number improper
    obtain ⟨after, left, dealt⟩ := watchAll_dealt takes spares programs has
    constructor
    · intro before rest delay made split
      obtain ⟨middle, _, same⟩ := dealt.turned split
      exact same
    · rw [left, dealt.kept]

/-- Expressions are programs, and clones share their source one word per decision to go on, over all
calls of all continuations and whatever else is done in between. -/
theorem clones_share_source {inner : Schedule Effect J P} {session : Session} {source : Source}
    (spares : inner.Spares number) (has : session.sources[number]? = some source)
    (low high : Binary64) :
    (∀ {I O : Type} {shared : Schedule (Shared inner number) I O} {plain : Schedule Effect I O},
      Expression inner number low high shared plain →
        plain = shared.hoist (Shared.play low high)) ∧
    ∀ programs : List (Shared inner number Unit),
      SharesSource inner number low high programs session source := by
  constructor
  · intro I O shared plain expression
    exact expression.hoist
  · intro programs
    exact shares_source spares low high programs has

theorem proper_one_two : Proper (.ofNat 1) (.ofNat 2) := by
  constructor <;> decide +kernel

/-- Two clones are stepped together and then one alone. The word of the second is broken: the first
program breaks off, and the clone that is stepped alone uses the third word. -/
theorem clones_share_source_broken :
    ∃ (session : Session)
      (programs : List (Shared (Schedule.spaced (.millis 5) : Schedule Effect Unit Nat) 0 Unit)),
      session.sources[0]? = some (.ofList [.bits 0, .broken, .bits 7]) ∧
      (watchAll (.ofNat 1) (.ofNat 2) programs session).map (·.outcome.toBool) = [false, true] ∧
      (lastWorld session (watchAll (.ofNat 1) (.ofNat 2) programs session)).sources[0]? =
        some ⟨.tape [.bits 0, .broken, .bits 7], 3⟩ := by
  let clone : Schedule (Shared (Schedule.spaced (.millis 5)) 0) Unit Nat := .cloned _ 0
  let both := clone.and clone
  let programs : List (Shared (Schedule.spaced (.millis 5)) 0 Unit) :=
    [discard (both.step both.start ()), discard (clone.step clone.start ())]
  let session : Session := { sources := [.ofList [.bits 0, .broken, .bits 7]] }
  have has : session.sources[0]? = some (.ofList [.bits 0, .broken, .bits 7]) := rfl
  have shares := (clones_share_source (fun _ _ _ => rfl) has (.ofNat 1) (.ofNat 2)).2 programs
  have used := (shares.proper proper_one_two).used
  refine ⟨session, programs, has, ?_, ?_⟩
  · decide +kernel
  · rw [used]
    decide +kernel

end Cadence
