import Cadence.Proofs.Watch

/-!
Trails of runs that heed their token: each call and each poll comes right after a look that found
the token active, and a look that finds it cancelled is the last of the run.
-/
namespace Cadence

open Traced

variable {ε σ S I O E T α β : Type}

def Deed.shown? : Deed S I O E T → Option Bool
  | called _ cancelled | polled cancelled => some cancelled
  | _ => none

def Deed.isFree : Deed S I O E T → Bool
  | checked _ | called .. | polled _ | fellBack .. => false
  | _ => true

/-- Each entry comes right after a look that found the token active. Of other deeds, those that are
`free` may come anywhere. -/
inductive Guarded (free : Deed S I O E T → Bool) : List (Deed S I O E T) → Prop where
  | nil : Guarded free []
  | entry {deed : Deed S I O E T} {rest : List (Deed S I O E T)} :
      deed.shown? = some false → Guarded free rest → Guarded free (.checked false :: deed :: rest)
  | free {deed : Deed S I O E T} {rest : List (Deed S I O E T)} :
      free deed = true → Guarded free rest → Guarded free (deed :: rest)

namespace Guarded

variable {free more : Deed S I O E T → Bool} {first second : List (Deed S I O E T)}

theorem append (start : Guarded free first) (finish : Guarded free second) :
    Guarded free (first ++ second) := by
  induction start with
  | nil => exact finish
  | entry enters _ ih => exact .entry enters ih
  | free allowed _ ih => exact .free allowed ih

theorem mono (wider : ∀ deed, free deed = true → more deed = true) (guarded : Guarded free first) :
    Guarded more first := by
  induction guarded with
  | nil => exact .nil
  | entry enters _ ih => exact .entry enters ih
  | free allowed _ ih => exact .free (wider _ allowed) ih

theorem of_forall (allowed : ∀ deed ∈ first, free deed = true) : Guarded free first := by
  induction first with
  | nil => exact .nil
  | cons deed rest ih =>
      refine .free (allowed deed List.mem_cons_self) (ih ?_)
      intro other member
      exact allowed other (List.mem_cons_of_mem _ member)

theorem mem (guarded : Guarded free first) {deed : Deed S I O E T} (member : deed ∈ first)
    (bound : free deed = false) : deed = .checked false ∨ deed.shown? = some false := by
  induction guarded with
  | nil => exact absurd member List.not_mem_nil
  | entry enters _ ih =>
      rcases List.mem_cons.mp member with rfl | member
      · exact Or.inl rfl
      · rcases List.mem_cons.mp member with rfl | member
        · exact Or.inr enters
        · exact ih member
  | free allowed _ ih =>
      rcases List.mem_cons.mp member with rfl | member
      · exact absurd (bound.symm.trans allowed) Bool.false_ne_true
      · exact ih member

theorem entered (plain : ∀ deed, free deed = true → deed.shown? = none)
    (guarded : Guarded free first) {before after : List (Deed S I O E T)} {deed : Deed S I O E T}
    {cancelled : Bool} (split : first = before ++ deed :: after)
    (enters : deed.shown? = some cancelled) :
    cancelled = false ∧ before.getLast? = some (.checked false) := by
  induction guarded generalizing before with
  | nil => exact absurd split (by simp)
  | @entry here rest active _ ih =>
      match before with
      | [] =>
          obtain ⟨rfl, _⟩ := List.cons.inj split
          exact nomatch enters
      | [_] =>
          obtain ⟨look, split⟩ := List.cons.inj split
          obtain ⟨rfl, _⟩ := List.cons.inj split
          rw [← look]
          exact ⟨Option.some.inj (enters.symm.trans active), rfl⟩
      | _ :: _ :: before =>
          obtain ⟨_, split⟩ := List.cons.inj split
          obtain ⟨_, split⟩ := List.cons.inj split
          obtain ⟨inactive, last⟩ := ih split
          refine ⟨inactive, ?_⟩
          rw [List.getLast?_cons, List.getLast?_cons, last]
          rfl
  | @free here rest allowed _ ih =>
      match before with
      | [] =>
          obtain ⟨rfl, _⟩ := List.cons.inj split
          exact nomatch (plain _ allowed).symm.trans enters
      | other :: before =>
          obtain ⟨_, split⟩ := List.cons.inj split
          obtain ⟨inactive, last⟩ := ih split
          refine ⟨inactive, ?_⟩
          rw [List.getLast?_cons, last]
          rfl

end Guarded

abbrev Clear : List (Deed S I O E T) → Prop := Guarded Deed.isFree

/-- Token and log of a driver: a look shows the flag and changes nothing, and no log line breaks off
or clears the flag. -/
structure Flagged (flag : σ → Bool) (driver : Driver (EStateM ε σ) E) : Prop where
  token : ∀ world, driver.cancelled world = .ok (flag world) world
  logs : ∀ report world, ∃ after,
    driver.log report world = .ok () after ∧ (flag world = true → flag after = true)

theorem Flagged.look {flag : σ → Bool} {driver : Driver (EStateM ε σ) E}
    (flagged : Flagged flag driver) (world : σ) :
    ((driver.watched flag).cancelled : Traced ε σ (Deed S I O E T) Bool) world =
      ⟨.ok (flag world), world, [.checked (flag world)]⟩ := by
  simp only [Driver.watched, record, flagged.token, List.append_nil]

/-- The run answers `stop` exactly when it found the token cancelled; then the flag is set, and only
`closing` deeds came after that look. -/
inductive Trail.Heeds (flag : σ → Bool) (stop : α) (closing : List (Deed S I O E T) → Prop)
    (trail : Trail ε σ (Deed S I O E T) α) : Prop where
  | goes (clear : Clear trail.deeds) (on : trail.outcome ≠ .ok stop)
  | stops {before last : List (Deed S I O E T)} (stopped : trail.outcome = .ok stop)
      (set : flag trail.world = true) (clear : Clear before) (closes : closing last)
      (deeds : trail.deeds = before ++ .checked true :: last)

def Heedful (flag : σ → Bool) (stop : α) (closing : List (Deed S I O E T) → Prop)
    (traced : Traced ε σ (Deed S I O E T) α) : Prop :=
  ∀ world, (traced world).Heeds flag stop closing

def Stops (flag : σ → Bool) (stop : α) (closing : List (Deed S I O E T) → Prop)
    (traced : Traced ε σ (Deed S I O E T) α) : Prop :=
  ∀ world, flag world = true →
    ∃ after told, traced world = ⟨.ok stop, after, told⟩ ∧ flag after = true ∧ closing told

variable {flag : σ → Bool} {stop : α} {halt : β}
  {closing ending joined : List (Deed S I O E T) → Prop}

theorem Trail.Heeds.after {trail : Trail ε σ (Deed S I O E T) α}
    (heeds : trail.Heeds flag stop closing) {told : List (Deed S I O E T)} (clear : Clear told) :
    (⟨trail.outcome, trail.world, told ++ trail.deeds⟩ :
      Trail ε σ (Deed S I O E T) α).Heeds flag stop closing := by
  cases heeds with
  | goes rest on => exact .goes (clear.append rest) on
  | @stops before last stopped set rest closes deeds =>
      refine .stops stopped set (clear.append rest) closes ?_
      rw [deeds, List.append_assoc]

namespace Heedful

theorem pure {value : α} (other : value ≠ stop) :
    Heedful flag stop closing (Pure.pure value : Traced ε σ (Deed S I O E T) α) := by
  intro world
  refine .goes .nil ?_
  intro same
  exact other (Except.ok.inj same)

theorem clear_bind {first : Traced ε σ (Deed S I O E T) β}
    {next : β → Traced ε σ (Deed S I O E T) α}
    (clear : ∀ world, Clear (first world).deeds)
    (heedful : ∀ value, Heedful flag stop closing (next value)) :
    Heedful flag stop closing (first >>= next) := by
  intro world
  cases outcome : (first world).outcome with
  | ok value =>
      rw [bind_run_ok outcome]
      exact (heedful value (first world).world).after (clear world)
  | error fault =>
      rw [bind_run_error outcome]
      exact .goes (clear world) nofun

theorem bind {first : Traced ε σ (Deed S I O E T) β} {next : β → Traced ε σ (Deed S I O E T) α}
    (start : Heedful flag halt closing first)
    (goesOn : ∀ value, value ≠ halt → Heedful flag stop joined (next value))
    (stops : Stops flag stop ending (next halt))
    (joins : ∀ last told, closing last → ending told → joined (last ++ told)) :
    Heedful flag stop joined (first >>= next) := by
  intro world
  cases start world with
  | goes clear on =>
      cases outcome : (first world).outcome with
      | ok value =>
          rw [bind_run_ok outcome]
          have other : value ≠ halt := fun same => on (outcome.trans (congrArg _ same))
          exact (goesOn value other (first world).world).after clear
      | error fault =>
          rw [bind_run_error outcome]
          exact .goes clear nofun
  | @stops before last stopped set clear closes deeds =>
      obtain ⟨after, told, ran, setAfter, ends⟩ := stops _ set
      rw [bind_run_ok stopped, ran, deeds]
      refine .stops rfl setAfter clear (joins last told closes ends) ?_
      simp only [List.append_assoc, List.cons_append]

theorem bind_some {first : Traced ε σ (Deed S I O E T) (Option β)}
    {next : Option β → Traced ε σ (Deed S I O E T) α} (start : Heedful flag none closing first)
    (goesOn : ∀ value, Heedful flag stop joined (next (some value)))
    (stops : Stops flag stop ending (next none))
    (joins : ∀ last told, closing last → ending told → joined (last ++ told)) :
    Heedful flag stop joined (first >>= next) := by
  refine start.bind ?_ stops joins
  intro result other
  cases result with
  | none => exact absurd rfl other
  | some value => exact goesOn value

theorem entry {driver : Driver (EStateM ε σ) E} (flagged : Flagged flag driver)
    (deed : Bool → Deed S I O E T) (enters : ∀ cancelled, (deed cancelled).shown? = some cancelled)
    {answered : β → List (Deed S I O E T)} (clear : ∀ value, Clear (answered value))
    {effect : EStateM ε σ β} {stopping : Traced ε σ (Deed S I O E T) α}
    (stops : Stops flag stop closing stopping) {next : β → Traced ε σ (Deed S I O E T) α}
    (heedful : ∀ value, Heedful flag stop closing (next value)) :
    Heedful flag stop closing (do
      if ← (driver.watched flag).cancelled then stopping
      else record (fun world => [deed (flag world)]) answered effect >>= next) := by
  intro world
  rw [bind_run_ok (by rw [flagged.look]), flagged.look]
  cases shown : flag world with
  | true =>
      obtain ⟨after, told, ran, setAfter, closes⟩ := stops world shown
      simp only [↓reduceIte, ran]
      exact .stops rfl setAfter .nil closes rfl
  | false =>
      have enter : Guarded Deed.isFree [.checked false, deed false] := .entry (enters false) .nil
      simp only [Bool.false_eq_true, ↓reduceIte]
      cases ran : effect world with
      | error fault after =>
          have entered := record_run_error (fun world => [deed (flag world)]) answered ran
          rw [bind_run_error (by rw [entered]), entered, shown]
          exact .goes enter nofun
      | ok value after =>
          have entered := record_run_ok (fun world => [deed (flag world)]) answered ran
          rw [bind_run_ok (by rw [entered]), entered, shown]
          exact ((heedful value after).after (clear value)).after enter

end Heedful
end Cadence
