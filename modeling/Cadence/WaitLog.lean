import Cadence.Duration

namespace Cadence

structure WaitLog where
  latestFirst : List Duration := []
  deriving DecidableEq

namespace WaitLog

def record (log : WaitLog) (wait : Duration) : WaitLog := ⟨wait :: log.latestFirst⟩
def waits (log : WaitLog) : List Duration := log.latestFirst.reverse
def count (log : WaitLog) : Nat := log.latestFirst.length
def at? (log : WaitLog) (index : Nat) : Option Duration := log.waits[index]?
def total (log : WaitLog) : Duration := log.waits.foldl (· + ·) .zero

theorem waits_record (log : WaitLog) (wait : Duration) :
    (log.record wait).waits = log.waits ++ [wait] := by
  simp [waits, record]

theorem count_record (log : WaitLog) (wait : Duration) : (log.record wait).count = log.count + 1 :=
  rfl

end WaitLog
end Cadence
