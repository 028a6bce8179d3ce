import Cadence.Schedule.Primitive
import Cadence.Session
import Mathlib.Logic.Function.Iterate

namespace Cadence

variable {m : Type → Type} [Monad m] {S I O : Type}

theorem nextCount_iterate (place : Nat) : nextCount^[place] 0 = min place (UInt64.size - 1) := by
  induction place with
  | zero => rfl
  | succ place ih =>
      rw [Function.iterate_succ_apply', ih, nextCount]
      omega

theorem nextCount_iterate_of_lt {place : Nat} (word : place < UInt64.size) :
    nextCount^[place] 0 = place := by
  rw [nextCount_iterate]
  omega

namespace Schedule

/-- The run on any inputs only shows entries, one for each input. As long as places are words of 64
bits, each entry is given by its place and its input. -/
def Emits (schedule : Schedule m I O) (shown : Nat → I → Entry O) : Prop :=
  ∀ inputs : List I, ∃ entries, schedule.run inputs = pure entries ∧
    entries.length = inputs.length ∧
    ∀ place < UInt64.size, entries[place]? = inputs[place]?.map (shown place)

/-- The run on any inputs only shows entries: it goes on after each count below the limit, and is done
with the limit. -/
def CountsTo (schedule : Schedule m I Nat) (limit : Nat) : Prop :=
  ∀ inputs : List I, ∃ entries, schedule.run inputs = pure entries ∧
    entries.length = min inputs.length (limit + 1) ∧
    (∀ place < limit, entries[place]? = inputs[place]?.map fun _ => (place, some .zero)) ∧
    entries[limit]? = inputs[limit]?.map fun _ => (limit, none)

theorem Emits.congr {schedule : Schedule m I O} {shown shown' : Nat → I → Entry O}
    (emits : schedule.Emits shown)
    (same : ∀ place < UInt64.size, ∀ input, shown place input = shown' place input) :
    schedule.Emits shown' := by
  intro inputs
  obtain ⟨entries, run, length, here⟩ := emits inputs
  refine ⟨entries, run, length, ?_⟩
  intro place word
  rw [here place word, funext (same place word)]

section Endless

abbrev endless (start : S) (next : S → S) (act : S → m Unit) (report : S → I → O)
    (delay : S → Duration) : Schedule m I O where
  State := S
  start := start
  step state input := do
    act state
    return .proceed (report state input) (delay state) (next state)

variable [LawfulMonad m] (start : S) (next : S → S) (act : S → m Unit) (report : S → I → O)
  (delay : S → Duration)

theorem endless_runFrom (inputs : List I) (state : S) :
    (endless start next act report delay).runFrom state inputs =
      (inputs.mapIdx fun place input => (next^[place] state, input)).mapM fun (state, input) => do
        act state
        return (report state input, some (delay state)) := by
  induction inputs generalizing state with
  | nil => simp [runFrom]
  | cons input inputs ih =>
      simp only [runFrom, ih, bind_assoc, pure_bind, List.mapIdx_cons, List.mapM_cons,
        Function.iterate_succ_apply, Function.iterate_zero_apply]

theorem endless_emits :
    (endless start next (fun _ => (pure () : m Unit)) report delay).Emits fun place input =>
      (report (next^[place] start) input, some (delay (next^[place] start))) := by
  intro inputs
  have run := endless_runFrom start next (fun _ => (pure () : m Unit)) report delay inputs start
  simp only [pure_bind, List.mapM_pure] at run
  refine ⟨_, run, by simp, ?_⟩
  intro place _
  simp [Function.comp_def]

end Endless

section Primitives

variable [LawfulMonad m]

theorem spaced_emits (delay : Duration) :
    (spaced delay : Schedule m I Nat).Emits fun place _ => (place, some delay) := by
  have same : (spaced delay : Schedule m I Nat) =
      endless 0 nextCount (fun _ => pure ()) (fun count _ => count) fun _ => delay := by
    simp only [spaced, endless, pure_bind]
  rw [same]
  refine Emits.congr (endless_emits _ _ _ _) ?_
  intro place word _
  rw [nextCount_iterate_of_lt word]

theorem identity_emits : (identity : Schedule m I I).Emits fun _ input => (input, some .zero) := by
  have same : (identity : Schedule m I I) =
      endless () id (fun _ => pure ()) (fun _ input => input) fun _ => .zero := by
    simp only [identity, endless, pure_bind, id]
  rw [same]
  exact endless_emits () id _ _

theorem backoff_emits (curve : Backoff) :
    (backoff curve : Schedule m I Duration).Emits fun place _ =>
      (curve.delay place, some (curve.delay place)) := by
  have same : (backoff curve : Schedule m I Duration) =
      endless 0 nextCount (fun _ => pure ()) (fun index _ => curve.delay index) curve.delay := by
    simp only [backoff, endless, pure_bind]
  rw [same]
  refine Emits.congr (endless_emits _ _ _ _) ?_
  intro place word _
  rw [nextCount_iterate_of_lt word]

end Primitives

section Unfold

variable [LawfulMonad m] (initial : O) (g : O → O)

def advanced : Option O → O
  | none => initial
  | some last => g last

theorem advanced_iterate (place : Nat) :
    advanced initial g ((fun last => some (advanced initial g last))^[place] none) =
      g^[place] initial := by
  induction place with
  | zero => rfl
  | succ place ih =>
      rw [Function.iterate_succ_apply', Function.iterate_succ_apply', ← ih]
      rfl

theorem unfold_emits :
    (unfold initial fun last => pure (g last) : Schedule m I O).Emits fun place _ =>
      (g^[place] initial, some .zero) := by
  have same : (unfold initial fun last => pure (g last) : Schedule m I O) =
      endless none (fun last => some (advanced initial g last)) (fun _ => pure ())
        (fun last _ => advanced initial g last) fun _ => .zero := by
    rw [unfold, endless]
    congr 1
    funext last input
    cases last <;> simp [advanced]
  rw [same]
  refine Emits.congr (endless_emits _ _ _ _) ?_
  intro place _ _
  rw [advanced_iterate]

theorem forever_emits :
    (forever : Schedule m I Nat).Emits fun place _ => (place, some .zero) := by
  refine Emits.congr (unfold_emits 0 nextCount) ?_
  intro place word _
  rw [nextCount_iterate_of_lt word]

def lastReport (entries : List (Entry O)) : O := (entries.map Prod.fst).getLastD initial

omit [Monad m] [LawfulMonad m] in
theorem lastReport_cons (output : O) (delay? : Option Duration) (entries : List (Entry O)) :
    lastReport initial ((output, delay?) :: entries) = lastReport output entries := by
  simp only [lastReport, List.map_cons, List.getLastD_cons]

variable {initial} (advance : O → m O)

theorem unfold_run_singleton (input : I) :
    (unfold initial advance : Schedule m I O).run [input] = pure [(initial, some .zero)] := by
  simp [run, runFrom, unfold]

theorem unfold_runFrom_cons (last : O) (input : I) (inputs : List I) :
    (unfold initial advance : Schedule m I O).runFrom (some last) (input :: inputs) = (do
      let output ← advance last
      return (output, some .zero) :: (← (unfold initial advance).runFrom (some output) inputs)) := by
  simp only [runFrom, unfold, bind_assoc, pure_bind]

theorem unfold_run_cons (input : I) (inputs : List I) :
    (unfold initial advance : Schedule m I O).run (input :: inputs) = (do
      return (initial, some .zero) :: (← (unfold initial advance).runFrom (some initial) inputs)) := by
  simp only [run, runFrom, unfold, pure_bind]

theorem unfold_runFrom_snoc (inputs : List I) (input : I) (last : O) :
    (unfold initial advance : Schedule m I O).runFrom (some last) (inputs ++ [input]) = (do
      let shown ← (unfold initial advance).runFrom (some last) inputs
      let output ← advance (lastReport last shown)
      return shown ++ [(output, some .zero)]) := by
  induction inputs generalizing last with
  | nil =>
      rw [List.nil_append, unfold_runFrom_cons]
      simp [runFrom, lastReport]
  | cons first inputs ih =>
      rw [List.cons_append, unfold_runFrom_cons, unfold_runFrom_cons]
      simp only [ih, bind_assoc, pure_bind, lastReport_cons, List.cons_append]

theorem unfold_run_snoc (first input : I) (inputs : List I) :
    (unfold initial advance : Schedule m I O).run (first :: inputs ++ [input]) = (do
      let shown ← (unfold initial advance).run (first :: inputs)
      let output ← advance (lastReport initial shown)
      return shown ++ [(output, some .zero)]) := by
  rw [List.cons_append, unfold_run_cons, unfold_run_cons, unfold_runFrom_snoc]
  simp only [bind_assoc, pure_bind, lastReport_cons, List.cons_append]

end Unfold

section Recurs

variable [LawfulMonad m]

theorem recurs_runFrom (limit : Nat) (inputs : List I) {count : Nat} (within : count ≤ limit) :
    (recurs limit : Schedule m I Nat).runFrom count inputs =
      pure ((inputs.take (limit - count + 1)).mapIdx fun place _ =>
        (count + place, if count + place < limit then some .zero else none)) := by
  induction inputs generalizing count with
  | nil => simp [runFrom]
  | cons input inputs ih =>
      rcases Nat.lt_or_eq_of_le within with below | rfl
      · have left : limit - count = limit - (count + 1) + 1 := by omega
        have within : count + 1 ≤ limit := below
        have later := ih within
        simp only [runFrom, recurs, below, if_true, pure_bind] at later ⊢
        rw [later, pure_bind, List.take_succ_cons, List.mapIdx_cons, left]
        simp only [Nat.add_zero, below, if_true, Nat.add_assoc, Nat.add_comm 1]
      · simp [runFrom, recurs]

theorem recurs_countsTo (limit : Nat) : (recurs limit : Schedule m I Nat).CountsTo limit := by
  intro inputs
  have run := recurs_runFrom (m := m) limit inputs (Nat.zero_le limit)
  refine ⟨_, run, ?_, ?_, ?_⟩
  · simp [Nat.min_comm]
  · intro place below
    simp [below, Nat.lt_succ_of_lt below]
  · simp

end Recurs

/-- The runs of `unfold`. Advancing is left alone on the first step. Each later one advances from the
last report, once, and reports what comes of it. -/
structure Unfolds (m : Type → Type) [Monad m] (I : Type) (initial : O) : Prop where
  emits : ∀ g : O → O, (unfold initial fun last => pure (g last) : Schedule m I O).Emits
    fun place _ => (g^[place] initial, some .zero)
  first : ∀ (advance : O → m O) (input : I),
    (unfold initial advance).run [input] = pure [(initial, some .zero)]
  later : ∀ (advance : O → m O) (first input : I) (inputs : List I),
    (unfold initial advance).run (first :: inputs ++ [input]) = (do
      let shown ← (unfold initial advance).run (first :: inputs)
      let output ← advance (lastReport initial shown)
      return shown ++ [(output, some .zero)])

variable [LawfulMonad m]

theorem unfold_unfolds (initial : O) : Unfolds m I initial where
  emits := unfold_emits initial
  first := unfold_run_singleton
  later := unfold_run_snoc

/-- The sequences of the primitive schedules. None has an effect of its own, and on any inputs each
step shows what belongs to its place. Only `recurs` ends, after as many steps as its limit, unless
the inputs end before. -/
theorem primitives_emit (delay : Duration) (limit : Nat) (initial : O) (curve : Backoff) :
    (spaced delay : Schedule m I Nat).Emits (fun place _ => (place, some delay)) ∧
    (forever : Schedule m I Nat).Emits (fun place _ => (place, some .zero)) ∧
    (recurs limit : Schedule m I Nat).CountsTo limit ∧
    (identity : Schedule m I I).Emits (fun _ input => (input, some .zero)) ∧
    Unfolds m I initial ∧
    (backoff curve : Schedule m I Duration).Emits
      (fun place _ => (curve.delay place, some (curve.delay place))) :=
  ⟨spaced_emits delay, forever_emits, recurs_countsTo limit, identity_emits,
    unfold_unfolds initial, backoff_emits curve⟩

theorem primitives_emit_doubling :
    let double (last : Nat) : Effect Nat := do
      Session.trace "double" []
      if last = 2 then throw (.raised "double") else return 2 * last
    (unfold 1 double).run [(), (), ()] = (do
      let shown ← (unfold 1 double).run [(), ()]
      let output ← double (lastReport 1 shown)
      return shown ++ [(output, some .zero)]) ∧
    ∃ entries, (recurs 2 : Schedule Effect Unit Nat).run [(), (), (), ()] = pure entries ∧
      entries[2]? = some (2, none) := by
  intro double
  have sequences := primitives_emit (m := Effect) (I := Unit) .zero 2 1 (.linear .zero)
  obtain ⟨entries, run, _, _, ends⟩ := sequences.2.2.1 [(), (), (), ()]
  exact ⟨sequences.2.2.2.2.1.later double () () [()], entries, run, ends⟩

end Schedule
end Cadence
