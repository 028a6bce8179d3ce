import Cadence.Proofs.Sampling
import Cadence.Wide

namespace Cadence

variable {σ : Type}

/-- Drawing in each of these worlds gives the word of its place and leads to the next world. -/
def Gives (draw : EStateM Fault σ UInt64) (words : Nat → UInt64) (worlds : Nat → σ) : Prop :=
  ∀ place, draw (worlds place) = .ok (words place) (worlds (place + 1))

/-- Draws words that are laid out beforehand. The world counts those drawn so far. -/
def laidOut (words : Nat → UInt64) : EStateM Fault Nat UInt64 :=
  fun place => .ok (words place) (place + 1)

theorem laidOut_gives (words : Nat → UInt64) : Gives (laidOut words) words id :=
  fun _ => rfl

namespace Random

def wideAt (words : Nat → UInt64) (place : Nat) : Nat :=
  (words (place + 1)).toNat * UInt64.size + (words place).toNat

section Gives

variable {draw : EStateM Fault σ UInt64} {words : Nat → UInt64} {worlds : Nat → σ}

theorem wideWord_given (gives : Gives draw words worlds) (place : Nat) :
    wideWord draw (worlds place) = .ok (wideAt words place) (worlds (place + 2)) := by
  rw [wideWord, bind_of_ok (gives place), bind_of_ok (gives (place + 1))]
  rfl

theorem inclusive_given (gives : Gives draw words worlds) (low high place : Nat) :
    ∃ number taken, (taken = 2 ∨ taken = 4) ∧
      inclusive draw low high (worlds place) = .ok number (worlds (place + taken)) := by
  have first := wideWord_given gives place
  have second := wideWord_given gives (place + 2)
  rw [inclusive]
  dsimp only
  rw [bind_of_ok first]
  split
  · rw [bind_of_ok second]
    exact ⟨_, 4, .inr rfl, rfl⟩
  · exact ⟨_, 2, .inl rfl, rfl⟩

end Gives

theorem exists_scaled {offset choices size : Nat} (within : offset < choices)
    (few : choices ≤ size) :
    ∃ wide rest, wide < size ∧ rest < choices ∧ wide * choices = offset * size + rest := by
  -- the least word that reaches the choice
  let raised := offset * size + (choices - 1)
  have parts : raised / choices * choices + raised % choices = raised := Nat.div_add_mod' ..
  have left : raised % choices < choices := Nat.mod_lt _ (by omega)
  have next : offset * size + size ≤ size * choices := by
    rw [← Nat.succ_mul, Nat.mul_comm]
    exact Nat.mul_le_mul_left size within
  have below : raised / choices * choices < size * choices := by omega
  refine ⟨raised / choices, choices - 1 - raised % choices, ?_, by omega, by omega⟩
  exact Nat.lt_of_mul_lt_mul_right below

def halves (wide place : Nat) : UInt64 :=
  if place = 0 then .ofNat (wide % UInt64.size) else .ofNat (wide / UInt64.size)

theorem wideAt_halves {wide : Nat} (below : wide < wideSize) : wideAt (halves wide) 0 = wide := by
  have upper : wide / UInt64.size < UInt64.size := Nat.div_lt_of_lt_mul below
  have lower : wide % UInt64.size < UInt64.size := Nat.mod_lt _ (by decide)
  have high : (UInt64.ofNat (wide / UInt64.size)).toNat = wide / UInt64.size :=
    UInt64.toNat_ofNat_of_lt' upper
  have low : (UInt64.ofNat (wide % UInt64.size)).toNat = wide % UInt64.size :=
    UInt64.toNat_ofNat_of_lt' lower
  rw [wideAt, halves, halves, if_pos rfl, if_neg (Nat.succ_ne_zero 0), high, low]
  exact Nat.div_add_mod' ..

theorem inclusive_covers {low high number : Nat} (least : low ≤ number) (most : number ≤ high)
    (few : 2 * (high - low + 1) ≤ wideSize) :
    ∃ words, inclusive (laidOut words) low high 0 = .ok number 2 := by
  have within : number - low < high - low + 1 := by omega
  have choices : high - low + 1 ≤ wideSize := by omega
  obtain ⟨wide, rest, below, left, scaled⟩ := exists_scaled within choices
  -- what is left over of the first word is too little for a carry
  have small : rest < wideSize := by omega
  have offset : wide * (high - low + 1) / wideSize = number - low := by
    rw [scaled, Nat.mul_comm, Nat.mul_add_div (by omega), Nat.div_eq_of_lt small, Nat.add_zero]
  have remainder : wide * (high - low + 1) % wideSize = rest := by
    rw [scaled, Nat.mul_comm, Nat.mul_add_mod, Nat.mod_eq_of_lt small]
  have drawn : wideWord (laidOut (halves wide)) 0 = .ok (wideAt (halves wide) 0) 2 :=
    wideWord_given (laidOut_gives _) 0
  rw [wideAt_halves below] at drawn
  refine ⟨halves wide, ?_⟩
  rw [inclusive]
  dsimp only
  rw [bind_of_ok drawn, offset, remainder, if_neg (by omega), Nat.add_sub_cancel' least]
  rfl

end Random

namespace Jitter

/-- The delays that a jitter makes of one delay are those from a floor up to the delay itself. -/
structure Scatters (jitter : Jitter) (delay : Duration) (floor : Nat) : Prop where
  zero : delay.nanos = 0 → ∀ {m : Type → Type} [Monad m] [MonadExcept Fault m] (draw : m UInt64),
    jitter.apply draw delay = pure .zero
  within : delay.nanos ≠ 0 → ∀ {σ : Type} {draw : EStateM Fault σ UInt64} {words : Nat → UInt64}
    {worlds : Nat → σ}, Gives draw words worlds → ∀ place, ∃ number taken made,
      (taken = 2 ∨ taken = 4) ∧
      Random.inclusive draw floor delay.nanos (worlds place) = .ok number (worlds (place + taken)) ∧
      jitter.apply draw delay (worlds place) = .ok made (worlds (place + taken)) ∧
      made = .ofWide (.ofNat number) ∧ made.nanos = number ∧
      floor ≤ made.nanos ∧ made.nanos ≤ delay.nanos
  covers : ∀ number, floor ≤ number → number ≤ delay.nanos → ∃ words made taken,
    jitter.apply (laidOut words) delay 0 = .ok made taken ∧ made.nanos = number

variable {jitter : Jitter} {delay : Duration} {floor : Nat}

theorem choices_le_wideSize (delay : Duration) (floor : Nat) :
    2 * (delay.nanos - floor + 1) ≤ Random.wideSize := by
  have short := delay.nanos_le
  have wider : 2 * (Duration.maxNanos + 1) ≤ Random.wideSize := by decide
  omega

theorem nanos_ofWide_of_le {number : Nat} (most : number ≤ delay.nanos) :
    (Duration.ofWide (.ofNat number)).nanos = number := by
  rw [Duration.ofWide_ofNat, Duration.nanos_ofNanos]
  exact Nat.min_eq_left (Nat.le_trans most delay.nanos_le)

section Picks

/-! Full and equal jitter pick a number from a floor up to the delay, unless that is zero. -/

variable (picks : ∀ {m : Type → Type} [Monad m] [MonadExcept Fault m] (draw : m UInt64),
  jitter.apply draw delay = if delay.isZero then pure .zero
    else Duration.ofNanos <$> Random.inclusive draw floor delay.nanos)

include picks

theorem apply_of_zero (none : delay.nanos = 0) {m : Type → Type} [Monad m] [MonadExcept Fault m]
    (draw : m UInt64) : jitter.apply draw delay = pure .zero := by
  have zero : delay.isZero = true := by rwa [Duration.isZero, beq_iff_eq]
  rw [picks, if_pos zero]

theorem apply_of_picked (some : delay.nanos ≠ 0) {draw : EStateM Fault σ UInt64}
    {world after : σ} {number : Nat}
    (picked : Random.inclusive draw floor delay.nanos world = .ok number after) :
    jitter.apply draw delay world = .ok (.ofWide (.ofNat number)) after := by
  have positive : ¬delay.isZero = true := by rwa [Duration.isZero, beq_iff_eq]
  rw [picks, if_neg positive, Duration.ofWide_ofNat]
  exact map_of_ok picked Duration.ofNanos

theorem scatters_of_picks (ordered : floor ≤ delay.nanos) : jitter.Scatters delay floor := by
  constructor
  · intro none m _ _ draw
    exact apply_of_zero picks none draw
  · intro some σ draw words worlds gives place
    obtain ⟨number, taken, count, picked⟩ := Random.inclusive_given gives floor delay.nanos place
    obtain ⟨least, most⟩ := Random.inclusive_ensures draw ordered _ _ _ picked
    have same := nanos_ofWide_of_le most
    refine ⟨number, taken, _, count, picked, apply_of_picked picks some picked, rfl, same, ?_⟩
    rw [same]
    exact ⟨least, most⟩
  · intro number least most
    by_cases none : delay.nanos = 0
    · have zero : number = 0 := Nat.eq_zero_of_le_zero (none ▸ most)
      have made := apply_of_zero picks none (laidOut fun _ => 0)
      exact ⟨_, .zero, 0, congrFun made 0, zero ▸ Duration.nanos_zero⟩
    · obtain ⟨words, picked⟩ :=
        Random.inclusive_covers least most (choices_le_wideSize delay floor)
      exact ⟨words, _, 2, apply_of_picked picks none picked, nanos_ofWide_of_le most⟩

end Picks

/-- The law of full and equal jitter. Whatever words a source gives, full jitter makes a delay from
zero up to the one it is given, and equal jitter one from its half up, in whole nanoseconds. Every
delay of the interval is made from some words. A zero delay stays as it is and takes no word; any
other takes two or four. -/
theorem full_and_equal_scatter (delay : Duration) :
    full.Scatters delay 0 ∧ equal.Scatters delay (delay.nanos / 2) := by
  constructor
  · exact scatters_of_picks (fun _ => rfl) (Nat.zero_le _)
  · exact scatters_of_picks (fun _ => rfl) (Nat.div_le_self _ _)

/-- There are three choices, and as much is left over of the first wide word as there can be. -/
example : full.apply (laidOut fun _ => 0x5555555555555555) (.ofNanos 2) 0 matches .ok _ 4 := by
  decide +kernel

end Jitter
end Cadence
