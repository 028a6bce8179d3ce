import Cadence.Proofs.Overflow
import Cadence.Random

/-!
Ranges of jitter factors. A range that is empty, inverted or unbounded gives its lower bound and is
not drawn from. Of the others, those whose bounds are too far apart are refused before a word is
drawn, and the rest take one word.
-/
namespace Cadence

variable {low high : Binary64}

structure Proper (low high : Binary64) : Prop where
  low_finite : low.isFinite = true
  high_finite : high.isFinite = true
  ordered : low.lt high = true
  width_finite : (high - low).isFinite = true

/-- An empty or inverted range, or one without bounds. -/
def Improper (low high : Binary64) : Prop :=
  low.isFinite = false ∨ high.isFinite = false ∨ high.le low = true

/-- Finite bounds so far apart that their distance is rounded out of the range of doubles. -/
structure TooWide (low high : Binary64) : Prop where
  low_finite : low.isFinite = true
  high_finite : high.isFinite = true
  apart : ∃ x y : Int, low.position = some x ∧ high.position = some y ∧
    (Binary64.overflowThreshold : Int) ≤ y - x

def Open (low high : Binary64) : Bool := low.isFinite && high.isFinite && !high.le low

theorem Proper.not_le (proper : Proper low high) : high.le low = false := by
  obtain ⟨x, lowPlace⟩ := Binary64.position_of_finite proper.low_finite
  obtain ⟨y, highPlace⟩ := Binary64.position_of_finite proper.high_finite
  have ordered := proper.ordered
  rw [Binary64.lt_of_position lowPlace highPlace, decide_eq_true_eq] at ordered
  rw [Binary64.le_of_position highPlace lowPlace]
  exact decide_eq_false (Int.not_le.mpr ordered)

theorem Proper.opened (proper : Proper low high) : Open low high = true := by
  rw [Open, proper.low_finite, proper.high_finite, proper.not_le]
  rfl

theorem closed_iff : Open low high = false ↔ Improper low high := by
  simp only [Open, Improper, Bool.and_eq_false_iff, Bool.not_eq_false', or_assoc]

theorem tooWide_iff :
    TooWide low high ↔ Open low high = true ∧ (high - low).isFinite = false := by
  constructor
  · rintro ⟨lowFinite, highFinite, x, y, lowPlace, highPlace, apart⟩
    have positive := Binary64.overflowThreshold_pos
    have above : high.le low = false := by
      rw [Binary64.le_of_position highPlace lowPlace]
      exact decide_eq_false (by omega)
    constructor
    · simp [Open, lowFinite, highFinite, above]
    · rw [Binary64.isFinite_sub lowFinite highFinite lowPlace highPlace]
      exact decide_eq_false (by omega)
  · rintro ⟨opened, unbounded⟩
    simp only [Open, Bool.and_eq_true, Bool.not_eq_true'] at opened
    obtain ⟨⟨lowFinite, highFinite⟩, above⟩ := opened
    obtain ⟨x, lowPlace⟩ := Binary64.position_of_finite lowFinite
    obtain ⟨y, highPlace⟩ := Binary64.position_of_finite highFinite
    rw [Binary64.le_of_position highPlace lowPlace, decide_eq_false_iff_not] at above
    rw [Binary64.isFinite_sub lowFinite highFinite lowPlace highPlace,
      decide_eq_false_iff_not] at unbounded
    exact ⟨lowFinite, highFinite, x, y, lowPlace, highPlace, by omega⟩

theorem proper_of_opened (opened : Open low high = true) (width : (high - low).isFinite = true) :
    Proper low high := by
  simp only [Open, Bool.and_eq_true, Bool.not_eq_true'] at opened
  obtain ⟨⟨lowFinite, highFinite⟩, above⟩ := opened
  obtain ⟨x, lowPlace⟩ := Binary64.position_of_finite lowFinite
  obtain ⟨y, highPlace⟩ := Binary64.position_of_finite highFinite
  rw [Binary64.le_of_position highPlace lowPlace, decide_eq_false_iff_not, Int.not_le] at above
  have ordered : low.lt high = true := by
    rw [Binary64.lt_of_position lowPlace highPlace]
    exact decide_eq_true above
  exact ⟨lowFinite, highFinite, ordered, width⟩

theorem improper_or_tooWide_or_proper (low high : Binary64) :
    Improper low high ∨ TooWide low high ∨ Proper low high := by
  cases opened : Open low high with
  | false => exact .inl (closed_iff.mp opened)
  | true =>
      cases width : (high - low).isFinite with
      | false => exact .inr (.inl (tooWide_iff.mpr ⟨opened, width⟩))
      | true => exact .inr (.inr (proper_of_opened opened width))

theorem Improper.not_tooWide (improper : Improper low high) : ¬TooWide low high := by
  intro wide
  have opened := (tooWide_iff.mp wide).1
  rw [closed_iff.mpr improper] at opened
  exact nomatch opened

theorem Proper.not_tooWide (proper : Proper low high) : ¬TooWide low high := by
  intro wide
  have width := (tooWide_iff.mp wide).2
  rw [proper.width_finite] at width
  exact nomatch width

namespace Random

variable {m : Type → Type} [Monad m] [MonadExcept Fault m] (draw : m UInt64)

theorem factor_of_improper (improper : Improper low high) : factor draw low high = pure low := by
  have closed := closed_iff.mpr improper
  rw [Open] at closed
  rw [factor, closed]
  rfl

theorem factor_of_proper (proper : Proper low high) :
    factor draw low high = do return fraction (← draw) * (high - low) + low := by
  have opened := proper.opened
  rw [Open] at opened
  simp only [factor, factorBetween, opened, proper.width_finite, if_true]

theorem factor_of_tooWide (wide : TooWide low high) :
    factor draw low high = throw .rangeTooWide := by
  obtain ⟨opened, width⟩ := tooWide_iff.mp wide
  rw [Open] at opened
  simp only [factor, factorBetween, opened, width, if_true, Bool.false_eq_true, if_false]

end Random
end Cadence
