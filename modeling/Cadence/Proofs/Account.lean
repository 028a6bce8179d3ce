import Cadence.Proofs.Cancellation

/-!
Runs that keep an account in their log. Right after each decision to go on comes a line with the
delay and the number of the attempt that led there, and the lines at the end have the number of
calls. Lines of neither kind are not written.
-/
namespace Cadence

open Traced

variable {ε σ S I O E T α β : Type}

namespace Deed

def isCall : Deed S I O E T → Bool
  | called .. => true
  | _ => false

def chosen? : Deed S I O E T → Option Duration
  | stepped _ _ decision => decision.delay?
  | _ => none

def line? : Deed S I O E T → Option (Level × Report)
  | reported report => some (report.notice.level, report)
  | _ => none

structure Quiet (deed : Deed S I O E T) : Prop where
  call : deed.isCall = false
  chosen : deed.chosen? = none
  line : deed.line? = none
  fallback : deed.isFallback = false

end Deed

def callCount (deeds : List (Deed S I O E T)) : Nat := deeds.countP Deed.isCall

def chosenDelays (deeds : List (Deed S I O E T)) : List Duration := deeds.filterMap Deed.chosen?

def logLines (deeds : List (Deed S I O E T)) : List (Level × Report) := deeds.filterMap Deed.line?

def numbered (line : Duration → Notice) (turn : Nat) (delays : List Duration) :
    List (Level × Report) :=
  delays.mapIdx fun index delay => (.debug, ⟨line delay, turn + index⟩)

/-- Nothing is written or chosen, and the action is called `count` times. -/
inductive Silent : (count : Nat) → List (Deed S I O E T) → Prop where
  | nil : Silent 0 []
  | quiet {count : Nat} {deed : Deed S I O E T} {rest : List (Deed S I O E T)} :
      deed.Quiet → Silent count rest → Silent count (deed :: rest)
  | called {count number : Nat} {cancelled : Bool} {rest : List (Deed S I O E T)} :
      Silent count rest → Silent (count + 1) (.called number cancelled :: rest)

/-- What is done from a moment on, up to the deeds `tail` that come after the lines which close the
log. So far `made` calls were made, and the next decision to go on follows attempt `turn`. -/
inductive Accounts (line : Duration → Notice) (closing : Nat → List (Level × Report))
    (tail : List (Deed S I O E T)) : (turn made : Nat) → List (Deed S I O E T) → Prop where
  | nothing {turn made : Nat} : closing made = [] → Accounts line closing tail turn made tail
  | closes {turn made : Nat} {report : Report} : closing made = [(report.notice.level, report)] →
      Accounts line closing tail turn made (.reported report :: tail)
  | quiet {turn made : Nat} {deed : Deed S I O E T} {rest : List (Deed S I O E T)} :
      deed.Quiet → Accounts line closing tail turn made rest →
        Accounts line closing tail turn made (deed :: rest)
  | called {turn made number : Nat} {cancelled : Bool} {rest : List (Deed S I O E T)} :
      Accounts line closing tail turn (made + 1) rest →
        Accounts line closing tail turn made (.called number cancelled :: rest)
  | proceeds {turn : Nat} {state next : S} {input : I} {output : O} {delay : Duration}
      {rest : List (Deed S I O E T)} : Accounts line closing tail (turn + 1) turn rest →
        Accounts line closing tail turn turn
          (.stepped state input (.proceed output delay next) ::
            .reported ⟨line delay, turn⟩ :: rest)

theorem Silent.append {count more : Nat} {first second : List (Deed S I O E T)}
    (start : Silent count first) (finish : Silent more second) :
    Silent (count + more) (first ++ second) := by
  induction start with
  | nil =>
      rw [Nat.zero_add]
      exact finish
  | quiet quiet _ ih => exact .quiet quiet ih
  | called _ ih =>
      rw [Nat.add_right_comm]
      exact .called ih

variable {line : Duration → Notice} {closing : Nat → List (Level × Report)}
  {tail deeds : List (Deed S I O E T)} {turn made : Nat}

theorem Silent.accounts {count : Nat} {first rest : List (Deed S I O E T)}
    (silent : Silent count first) (accounts : Accounts line closing tail turn (made + count) rest) :
    Accounts line closing tail turn made (first ++ rest) := by
  induction silent generalizing made with
  | nil => exact accounts
  | quiet quiet _ ih => exact .quiet quiet (ih accounts)
  | @called count _ _ _ _ ih =>
      apply Accounts.called
      apply ih
      rwa [Nat.add_assoc, Nat.add_comm 1 count]

section Cons

variable {deed : Deed S I O E T} {report : Report} {rest : List (Deed S I O E T)}

theorem Deed.Quiet.callCount_cons (quiet : deed.Quiet) :
    callCount (deed :: rest) = callCount rest :=
  List.countP_cons_of_neg (Bool.eq_false_iff.mp quiet.call)

theorem Deed.Quiet.chosenDelays_cons (quiet : deed.Quiet) :
    chosenDelays (deed :: rest) = chosenDelays rest :=
  List.filterMap_cons_none quiet.chosen

theorem Deed.Quiet.logLines_cons (quiet : deed.Quiet) : logLines (deed :: rest) = logLines rest :=
  List.filterMap_cons_none quiet.line

theorem callCount_called {number : Nat} {cancelled : Bool} :
    callCount (.called number cancelled :: rest) = callCount rest + 1 := List.countP_cons_of_pos rfl

theorem callCount_reported : callCount (.reported report :: rest) = callCount rest := rfl

theorem chosenDelays_reported : chosenDelays (.reported report :: rest) = chosenDelays rest := rfl

theorem logLines_reported :
    logLines (.reported report :: rest) = (report.notice.level, report) :: logLines rest := rfl

end Cons

theorem trailing (falls : ∀ deed ∈ tail, deed.isFallback = true) :
    callCount tail = 0 ∧ chosenDelays tail = [] ∧ logLines tail = [] := by
  induction tail with
  | nil => exact ⟨rfl, rfl, rfl⟩
  | cons deed rest ih =>
      have later := ih fun other member => falls other (List.mem_cons_of_mem deed member)
      have first := falls deed List.mem_cons_self
      cases deed with
      | fellBack error last => exact later
      | _ => exact nomatch first

namespace Accounts

theorem append_tail (accounts : Accounts line closing [] turn made deeds) :
    Accounts line closing tail turn made (deeds ++ tail) := by
  induction accounts with
  | nothing last => exact .nothing last
  | closes last => exact .closes last
  | quiet quiet _ ih => exact .quiet quiet ih
  | called _ ih => exact .called ih
  | proceeds _ ih => exact .proceeds ih

section Reading

variable (accounts : Accounts line closing tail turn made deeds)
  (falls : ∀ deed ∈ tail, deed.isFallback = true)

include accounts falls

theorem lines (debug : ∀ delay, (line delay).level = .debug) :
    logLines deeds =
      numbered line turn (chosenDelays deeds) ++ closing (made + callCount deeds) := by
  obtain ⟨noCalls, noDelays, noLines⟩ := trailing falls
  induction accounts with
  | nothing last =>
      rw [noCalls, noDelays, noLines, Nat.add_zero, last]
      rfl
  | @closes turn made report last =>
      rw [logLines_reported, chosenDelays_reported, callCount_reported, noCalls, noDelays, noLines,
        Nat.add_zero, last]
      rfl
  | quiet quiet _ ih =>
      rw [quiet.logLines_cons, quiet.chosenDelays_cons, quiet.callCount_cons]
      exact ih
  | @called turn made number cancelled rest _ ih =>
      rw [callCount_called, Nat.add_comm (callCount rest), ← Nat.add_assoc]
      exact ih
  | @proceeds turn state next input output delay rest _ ih =>
      have shifted : numbered line turn (delay :: chosenDelays rest) =
          (.debug, ⟨line delay, turn⟩) :: numbered line (turn + 1) (chosenDelays rest) := by
        simp only [numbered, List.mapIdx_cons, Nat.add_zero, Nat.add_assoc, Nat.add_comm 1]
      calc
        logLines (.stepped state input (.proceed output delay next) ::
            .reported ⟨line delay, turn⟩ :: rest) =
          ((line delay).level, ⟨line delay, turn⟩) :: logLines rest := rfl
        _ = numbered line turn (delay :: chosenDelays rest) ++ closing (turn + callCount rest) := by
          rw [debug, ih, shifted, List.cons_append]
        _ = _ := rfl

/-- The line of a decision to go on comes next, before anything is done about the wait. -/
theorem prompt {before after : List (Deed S I O E T)} {state next : S} {input : I} {output : O}
    {delay : Duration}
    (split : deeds = before ++ .stepped state input (.proceed output delay next) :: after) :
    ∃ rest, after = .reported ⟨line delay, made + callCount before⟩ :: rest := by
  have absent {first last : List (Deed S I O E T)}
      (same : tail = first ++ .stepped state input (.proceed output delay next) :: last) :
      False := by
    have member : Deed.stepped state input (.proceed output delay next) ∈ tail := by
      rw [same]
      exact List.mem_append_right first List.mem_cons_self
    exact nomatch falls _ member
  induction accounts generalizing before with
  | nothing _ => exact (absent split).elim
  | closes _ =>
      cases before with
      | nil => exact nomatch (List.cons.inj split).1
      | cons _ before => exact (absent (List.cons.inj split).2).elim
  | quiet quiet _ ih =>
      cases before with
      | nil =>
          have same := (List.cons.inj split).1
          rw [same] at quiet
          exact nomatch quiet.chosen
      | cons deed before =>
          obtain ⟨rfl, later⟩ := List.cons.inj split
          rw [quiet.callCount_cons]
          exact ih later
  | @called turn made _ _ _ _ ih =>
      cases before with
      | nil => exact nomatch (List.cons.inj split).1
      | cons deed before =>
          obtain ⟨rfl, later⟩ := List.cons.inj split
          obtain ⟨rest, same⟩ := ih later
          refine ⟨rest, ?_⟩
          rw [same, callCount_called, Nat.add_right_comm, Nat.add_assoc]
  | proceeds _ ih =>
      match before with
      | [] =>
          obtain ⟨same, rfl⟩ := List.cons.inj split
          cases same
          exact ⟨_, rfl⟩
      | [_] =>
          have second := (List.cons.inj split).2
          exact nomatch (List.cons.inj second).1
      | _ :: _ :: before =>
          obtain ⟨rfl, second⟩ := List.cons.inj split
          obtain ⟨rfl, later⟩ := List.cons.inj second
          have prompted := ih later
          exact prompted

omit accounts in
theorem any_tail : tail.any Deed.isFallback = !tail.isEmpty := by
  cases tail with
  | nil => rfl
  | cons deed rest => rw [List.any_cons, falls deed List.mem_cons_self, Bool.true_or]; rfl

theorem any_isFallback : deeds.any Deed.isFallback = !tail.isEmpty := by
  induction accounts with
  | nothing _ => exact any_tail falls
  | closes _ => exact any_tail falls
  | quiet quiet _ ih =>
      rw [List.any_cons, quiet.fallback, Bool.false_or]
      exact ih
  | called _ ih => exact ih
  | proceeds _ ih => exact ih

end Reading

end Accounts
end Cadence
