import Cadence.Jitter
import Cadence.Proofs.Outcome

/-!
Numbers drawn from an interval stay in it: the carry that a second wide word settles is never added
to the greatest of them.
-/
namespace Cadence

variable {ε σ : Type}

namespace Random

theorem offset_lt {wide choices size : Nat} (below : wide < size) (some : 0 < choices) :
    wide * choices / size < choices := by
  apply Nat.div_lt_of_lt_mul
  exact Nat.mul_lt_mul_of_pos_right below some

theorem settled_of_last {wide choices size : Nat} (below : wide < size)
    (last : wide * choices / size + 1 = choices) : wide * choices % size + choices ≤ size := by
  have parts : size * (wide * choices / size) + wide * choices % size = wide * choices :=
    Nat.div_add_mod ..
  have room : wide * choices + choices ≤ size * choices := by
    rw [← Nat.succ_mul]
    exact Nat.mul_le_mul_right choices below
  have whole : size * choices = size * (wide * choices / size) + size := by
    rw [← Nat.mul_succ, Nat.succ_eq_add_one, last]
  omega

theorem wideWord_ensures (draw : EStateM ε σ UInt64) :
    Ensures (· < wideSize) (wideWord draw) := by
  refine (Ensures.any draw).bind fun low _ => (Ensures.any draw).bind fun high _ => .pure ?_
  have lowBound := low.toNat_lt_size
  have highBound : high.toNat + 1 ≤ UInt64.size := high.toNat_lt_size
  calc
    high.toNat * UInt64.size + low.toNat < high.toNat * UInt64.size + UInt64.size := by omega
    _ = (high.toNat + 1) * UInt64.size := (Nat.succ_mul ..).symm
    _ ≤ wideSize := Nat.mul_le_mul_right _ highBound

theorem inclusive_ensures (draw : EStateM ε σ UInt64) {low high : Nat} (ordered : low ≤ high) :
    Ensures (fun number => low ≤ number ∧ number ≤ high) (inclusive draw low high) := by
  refine (wideWord_ensures draw).bind fun wide below => ?_
  dsimp only
  have within := offset_lt below (Nat.succ_pos (high - low))
  have settled := @settled_of_last wide (high - low + 1) wideSize below
  generalize wide * (high - low + 1) / wideSize = offset at *
  generalize wide * (high - low + 1) % wideSize = remainder at *
  split
  · refine (Ensures.any _).bind fun second _ => .pure ?_
    split <;> omega
  · refine .pure ?_
    omega

variable {calm : σ → Prop} {draw : EStateM ε σ UInt64}

end Random

namespace Jitter

variable {calm : σ → Prop} {draw : EStateM Fault σ UInt64}

end Jitter
end Cadence
