/-!
Runs that leave a trail: beside the outcome and the world after it, what was done on the way.
Erasing the trail of a recorded effect gives the effect back.
-/
namespace Cadence

structure Trail (ε σ δ α : Type) where
  outcome : Except ε α
  world : σ
  deeds : List δ

def Trail.result {ε σ δ α : Type} (trail : Trail ε σ δ α) : EStateM.Result ε σ α :=
  match trail.outcome with
  | .ok value => .ok value trail.world
  | .error fault => .error fault trail.world

/-- Effects on a world `σ` that may break off with an `ε`, and do deeds `δ` until then. -/
def Traced (ε σ δ α : Type) : Type := σ → Trail ε σ δ α

namespace Traced

variable {ε σ δ α β : Type}

protected def bind (first : Traced ε σ δ α) (next : α → Traced ε σ δ β) : Traced ε σ δ β :=
  fun world =>
    let trail := first world
    match trail.outcome with
    | .ok value =>
        let rest := next value trail.world
        ⟨rest.outcome, rest.world, trail.deeds ++ rest.deeds⟩
    | .error fault => ⟨.error fault, trail.world, trail.deeds⟩

instance : Monad (Traced ε σ δ) where
  pure value := fun world => ⟨.ok value, world, []⟩
  bind := Traced.bind

def record (before : σ → List δ) (answered : α → List δ) (effect : EStateM ε σ α) :
    Traced ε σ δ α :=
  fun world =>
    match effect world with
    | .ok value after => ⟨.ok value, after, before world ++ answered value⟩
    | .error fault after => ⟨.error fault, after, before world⟩

def erase (traced : Traced ε σ δ α) : EStateM ε σ α := fun world => (traced world).result

theorem pure_run (value : α) (world : σ) :
    (pure value : Traced ε σ δ α) world = ⟨.ok value, world, []⟩ := rfl

theorem bind_run_ok {first : Traced ε σ δ α} {world : σ} {value : α}
    (answered : (first world).outcome = .ok value) (next : α → Traced ε σ δ β) :
    (first >>= next) world =
      ⟨(next value (first world).world).outcome, (next value (first world).world).world,
        (first world).deeds ++ (next value (first world).world).deeds⟩ := by
  change Traced.bind first next world = _
  simp only [Traced.bind, answered]

theorem bind_run_error {first : Traced ε σ δ α} {world : σ} {fault : ε}
    (broke : (first world).outcome = .error fault) (next : α → Traced ε σ δ β) :
    (first >>= next) world = ⟨.error fault, (first world).world, (first world).deeds⟩ := by
  change Traced.bind first next world = _
  simp only [Traced.bind, broke]

theorem record_run_ok (before : σ → List δ) (answered : α → List δ) {effect : EStateM ε σ α}
    {world after : σ} {value : α} (ran : effect world = .ok value after) :
    record before answered effect world = ⟨.ok value, after, before world ++ answered value⟩ := by
  simp only [record, ran]

theorem record_run_error (before : σ → List δ) (answered : α → List δ) {effect : EStateM ε σ α}
    {world after : σ} {fault : ε} (broke : effect world = .error fault after) :
    record before answered effect world = ⟨.error fault, after, before world⟩ := by
  simp only [record, broke]

protected theorem bind_assoc {γ : Type} (first : Traced ε σ δ α) (next : α → Traced ε σ δ β)
    (last : β → Traced ε σ δ γ) :
    first >>= next >>= last = first >>= fun value => next value >>= last := by
  funext world
  cases outcome : (first world).outcome with
  | error fault =>
      have broke : ((first >>= next) world).outcome = .error fault := by rw [bind_run_error outcome]
      rw [bind_run_error broke, bind_run_error outcome, bind_run_error outcome]
  | ok value =>
      have reached : ((first >>= next) world).outcome =
          (next value (first world).world).outcome := by
        rw [bind_run_ok outcome]
      rw [bind_run_ok outcome]
      cases later : (next value (first world).world).outcome with
      | error fault =>
          rw [bind_run_error (reached.trans later), bind_run_ok outcome, bind_run_error later]
      | ok result =>
          rw [bind_run_ok (reached.trans later), bind_run_ok outcome, bind_run_ok later]
          simp only [List.append_assoc]

protected theorem bind_pure (first : Traced ε σ δ α) : first >>= pure = first := by
  funext world
  cases outcome : (first world).outcome with
  | ok value => rw [bind_run_ok outcome, pure_run, List.append_nil, ← outcome]
  | error fault => rw [bind_run_error outcome, ← outcome]

instance : LawfulMonad (Traced ε σ δ) :=
  .mk' _ Traced.bind_pure (fun _ _ => rfl) Traced.bind_assoc

@[simp] theorem erase_pure (value : α) : (pure value : Traced ε σ δ α).erase = pure value := rfl

@[simp] theorem erase_bind (first : Traced ε σ δ α) (next : α → Traced ε σ δ β) :
    (first >>= next).erase = first.erase >>= fun value => (next value).erase := by
  funext world
  change ((first >>= next) world).result =
    EStateM.bind first.erase (fun value => (next value).erase) world
  cases outcome : (first world).outcome with
  | ok value => simp only [bind_run_ok outcome, Trail.result, EStateM.bind, erase, outcome]
  | error fault => simp only [bind_run_error outcome, Trail.result, EStateM.bind, erase, outcome]

@[simp] theorem erase_ite (condition : Prop) [Decidable condition] (yes no : Traced ε σ δ α) :
    (if condition then yes else no).erase = if condition then yes.erase else no.erase :=
  apply_ite erase condition yes no

@[simp] theorem erase_record (before : σ → List δ) (answered : α → List δ)
    (effect : EStateM ε σ α) : (record before answered effect).erase = effect := by
  funext world
  cases ran : effect world <;> simp only [erase, Trail.result, record, ran]

/-- The run from `world` answers `value` in the world `after`, and of its deeds those that are kept
are the ones `told`. -/
structure Leads (kept : δ → Bool) (traced : Traced ε σ δ α) (world : σ) (value : α) (after : σ)
    (told : List δ) : Prop where
  outcome : (traced world).outcome = .ok value
  arrival : (traced world).world = after
  deeds : (traced world).deeds.filter kept = told

variable {kept : δ → Bool} {world middle after : σ} {value : α} {told more : List δ}

theorem Leads.pure : Leads kept (pure value : Traced ε σ δ α) world value world [] :=
  ⟨rfl, rfl, rfl⟩

theorem Leads.erase {traced : Traced ε σ δ α} (led : Leads kept traced world value after told) :
    traced.erase world = .ok value after := by
  simp only [Traced.erase, Trail.result, led.outcome, led.arrival]

/-- The run from `world` goes on as `rest` does from `middle`, after the kept deeds `told`. -/
structure Reaches (kept : δ → Bool) (traced : Traced ε σ δ α) (world : σ) (rest : Traced ε σ δ α)
    (middle : σ) (told : List δ) : Prop where
  outcome : (traced world).outcome = (rest middle).outcome
  arrival : (traced world).world = (rest middle).world
  deeds : (traced world).deeds.filter kept = told ++ (rest middle).deeds.filter kept

theorem Leads.reaches {first : Traced ε σ δ α} (led : Leads kept first world value middle told)
    (next : α → Traced ε σ δ β) :
    Reaches kept (first >>= next) world (next value) middle told := by
  have run := bind_run_ok led.outcome next
  rw [led.arrival] at run
  constructor
  · rw [run]
  · rw [run]
  · rw [run, List.filter_append, led.deeds]

theorem Reaches.trans {first second third : Traced ε σ δ α} {far : σ}
    (start : Reaches kept first world second middle told)
    (finish : Reaches kept second middle third far more) :
    Reaches kept first world third far (told ++ more) := by
  constructor
  · rw [start.outcome, finish.outcome]
  · rw [start.arrival, finish.arrival]
  · rw [start.deeds, finish.deeds, List.append_assoc]

theorem Reaches.leads {first rest : Traced ε σ δ α}
    (reached : Reaches kept first world rest middle told)
    (led : Leads kept rest middle value after more) :
    Leads kept first world value after (told ++ more) := by
  constructor
  · rw [reached.outcome, led.outcome]
  · rw [reached.arrival, led.arrival]
  · rw [reached.deeds, led.deeds]

theorem Leads.bind {first : Traced ε σ δ α} {next : α → Traced ε σ δ β} {result : β}
    (led : Leads kept first world value middle told)
    (leads : Leads kept (next value) middle result after more) :
    Leads kept (first >>= next) world result after (told ++ more) :=
  (led.reaches next).leads leads

theorem Leads.bind_pure {first : Traced ε σ δ α} {next : α → Traced ε σ δ β} {result : β}
    (led : Leads kept first world value after told) (answers : next value = Pure.pure result) :
    Leads kept (first >>= next) world result after told := by
  have leads : Leads kept (next value) after result after [] := answers ▸ Leads.pure
  simpa using led.bind leads

theorem Leads.record {before : σ → List δ} {answered : α → List δ} {effect : EStateM ε σ α}
    (ran : effect world = .ok value after) :
    Leads kept (record before answered effect) world value after
      ((before world ++ answered value).filter kept) := by
  constructor <;> rw [record_run_ok before answered ran]

structure Tells (told : α → List δ → Prop) (traced : Traced ε σ δ α) : Prop where
  answered : ∀ world value,
    (traced world).outcome = .ok value → told value (traced world).deeds

namespace Tells

variable {told goal : α → List δ → Prop} {answer : β → List δ → Prop}

theorem pure {value : α} (holds : told value []) :
    Tells told (Pure.pure value : Traced ε σ δ α) := by
  constructor
  intro world result outcome
  cases outcome
  exact holds

theorem record {before : σ → List δ} {answered : α → List δ} {effect : EStateM ε σ α}
    (holds : ∀ world value, told value (before world ++ answered value)) :
    Tells told (record before answered effect) := by
  constructor
  intro world value outcome
  cases ran : effect world with
  | error fault after =>
      rw [record_run_error before answered ran] at outcome
      exact nomatch outcome
  | ok result after =>
      rw [record_run_ok before answered ran] at outcome ⊢
      cases outcome
      exact holds world value

theorem bind {first : Traced ε σ δ α} {next : α → Traced ε σ δ β} (start : Tells told first)
    (rest : ∀ value deeds, told value deeds →
      Tells (fun result more => answer result (deeds ++ more)) (next value)) :
    Tells answer (first >>= next) := by
  constructor
  intro world result outcome
  cases reached : (first world).outcome with
  | error fault =>
      rw [bind_run_error reached] at outcome
      exact nomatch outcome
  | ok value =>
      rw [bind_run_ok reached] at outcome ⊢
      exact (rest value _ (start.answered world value reached)).answered _ result outcome

theorem mono {traced : Traced ε σ δ α} (tells : Tells told traced)
    (weaker : ∀ value deeds, told value deeds → goal value deeds) : Tells goal traced := by
  constructor
  intro world value outcome
  exact weaker value _ (tells.answered world value outcome)

end Tells

end Traced
end Cadence
