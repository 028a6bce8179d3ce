import Cadence.Binary64
import Cadence.Fault

namespace Cadence

inductive Word where
  | bits (value : UInt64)
  | broken
  deriving DecidableEq

/-- Words without end: a tape that is played round and round, an empty one playing zero, or words
generated from a seed. -/
inductive WordStream where
  | tape (words : List Word)
  | generated (seed : UInt64)
  deriving DecidableEq

def stir (count : UInt64) : UInt64 :=
  let a := (count ^^^ (count >>> 30)) * 0xBF58476D1CE4E5B9
  let b := (a ^^^ (a >>> 27)) * 0x94D049BB133111EB
  b ^^^ (b >>> 31)

def WordStream.word (index : Nat) : WordStream → Word
  | tape words => words.getD (index % words.length) (.bits 0)
  | generated seed => .bits (stir (seed + (index + 1).toUInt64 * 0x9E3779B97F4A7C15))

structure Source where
  stream : WordStream
  drawn : Nat := 0
  deriving DecidableEq

namespace Source

def ofList (words : List Word) : Source := ⟨.tape words, 0⟩
def seeded (seed : UInt64) : Source := ⟨.generated seed, 0⟩

def upcoming (source : Source) : Word := source.stream.word source.drawn

/-- A broken word is used up like any other. -/
def draw (source : Source) : Except Fault UInt64 × Source :=
  (match source.upcoming with
    | .bits value => .ok value
    | .broken => .error .sourceFailed,
   { source with drawn := source.drawn + 1 })

end Source

abbrev Drawing := ExceptT Fault (StateM Source)

def Drawing.word : Drawing UInt64 := ExceptT.mk fun source => source.draw

namespace Random

def fraction (word : UInt64) : Binary64 := .ofRatio (word.toNat >>> 12) (1 <<< 52)

variable {m : Type → Type} [Monad m]

def factorBetween [MonadExcept Fault m] (draw : m UInt64) (low high : Binary64) : m Binary64 := do
  let width := high - low
  if width.isFinite then
    let word ← draw
    return fraction word * width + low
  else throw .rangeTooWide

/-- A factor from `low` up to `high`; an empty, inverted or unbounded range gives `low` and draws
nothing. -/
def factor [MonadExcept Fault m] (draw : m UInt64) (low high : Binary64) : m Binary64 :=
  if low.isFinite && high.isFinite && !high.le low then factorBetween draw low high
  else pure low

def wideSize : Nat := UInt64.size * UInt64.size

def wideWord (draw : m UInt64) : m Nat := do
  let low ← draw
  let high ← draw
  return high.toNat * UInt64.size + low.toNat

/-- A whole number from `low` to `high`, both included: the upper half of a wide word times the
count of choices. Where the lower half is near its end, a second wide word settles the carry. -/
def inclusive (draw : m UInt64) (low high : Nat) : m Nat := do
  let choices := high - low + 1
  let scaled := (← wideWord draw) * choices
  let offset := scaled / wideSize
  let remainder := scaled % wideSize
  if wideSize - choices < remainder then
    let correction := (← wideWord draw) * choices / wideSize
    return low + offset + (if wideSize ≤ remainder + correction then 1 else 0)
  else return low + offset

end Random
end Cadence
