import Cadence.Recipe.Detour

namespace Cadence

mutual
inductive Recipe where
  | primitive (part : Primitive)
  | named (name : String)
  | modify (inner : Recipe) (modifier : Modifier)
  | jitteredWith (inner : Recipe) (low high : Binary64) (words : List Word)
  | revise (inner : Recipe) (revision : Revision)
  | combine (left right : Recipe) (joint : Joint)

inductive Revision where
  | keep
  | doneIf (condition : Condition)
  | setDelay (delay : Duration)
  | mapOutput (change : Change)
  | revive (condition : Condition) (delay : Duration) (last : Value)
  | jump (condition : Condition) (target : Recipe)
  | andThen (first second : Revision)
  | traced (tag : String) (revision : Revision)
end

structure Built where
  schedule : ValueSchedule
  sources : List Source

structure BuiltDetour where
  detour : Detour
  sources : List Source

abbrev Definitions := List (String × ValueSchedule)

mutual
/-- Builds operands before what is made from them, the left one first; the first error counts. -/
def Recipe.build (definitions : Definitions) :
    Recipe → (sources : List Source) → Except RecipeError Built
  | .primitive part, sources => do return ⟨← part.build, sources⟩
  | .named name, sources =>
      match definitions.lookup name with
      | none => .error (.unknownName name)
      | some schedule => .ok ⟨schedule, sources⟩
  | .modify inner modifier, sources => do
      let ⟨schedule, sources⟩ ← inner.build definitions sources
      return ⟨← modifier.build schedule, sources⟩
  | .jitteredWith inner low high words, sources => do
      let ⟨schedule, sources⟩ ← inner.build definitions sources
      return ⟨schedule.jittered low high (Session.draw sources.length), sources ++ [.ofList words]⟩
  | .revise inner revision, sources => do
      let ⟨schedule, sources⟩ ← inner.build definitions sources
      let ⟨detour, sources⟩ ← revision.build definitions sources
      return ⟨schedule.detoured detour, sources⟩
  | .combine left right joint, sources => do
      let ⟨left, sources⟩ ← left.build definitions sources
      let ⟨right, sources⟩ ← right.build definitions sources
      return ⟨joint.build left right, sources⟩

def Revision.build (definitions : Definitions) :
    Revision → (sources : List Source) → Except RecipeError BuiltDetour
  | .keep, sources => .ok ⟨.keep, sources⟩
  | .doneIf condition, sources => .ok ⟨.doneIf condition, sources⟩
  | .setDelay delay, sources => .ok ⟨.setDelay delay, sources⟩
  | .mapOutput change, sources => .ok ⟨.mapOutput change, sources⟩
  | .revive condition delay last, sources => .ok ⟨.revive condition delay last, sources⟩
  | .jump condition target, sources => do
      let ⟨target, sources⟩ ← target.build definitions sources
      return ⟨.jump condition target, sources⟩
  | .andThen first second, sources => do
      let ⟨first, sources⟩ ← first.build definitions sources
      let ⟨second, sources⟩ ← second.build definitions sources
      return ⟨first.andThen second, sources⟩
  | .traced tag revision, sources => do
      let ⟨detour, sources⟩ ← revision.build definitions sources
      return ⟨detour.traced tag, sources⟩
end

namespace Recipe

def define : List (String × Recipe) → Definitions → List Source →
    Except RecipeError (Definitions × List Source)
  | [], definitions, sources => .ok (definitions, sources)
  | (name, recipe) :: rest, definitions, sources => do
      let ⟨schedule, sources⟩ ← recipe.build definitions sources
      define rest ((name, schedule) :: definitions) sources

def buildEach (definitions : Definitions) : List Recipe → List Source →
    Except RecipeError (List ValueSchedule × List Source)
  | [], sources => .ok ([], sources)
  | recipe :: recipes, sources => do
      let ⟨schedule, sources⟩ ← recipe.build definitions sources
      let (schedules, sources) ← buildEach definitions recipes sources
      return (schedule :: schedules, sources)

def buildAllWith (definitions : List (String × Recipe)) (recipes : List Recipe) :
    Except RecipeError (List ValueSchedule × List Source) := do
  let (definitions, sources) ← define definitions [] []
  buildEach definitions recipes sources

def buildWith (definitions : List (String × Recipe)) (recipe : Recipe) :
    Except RecipeError Built := do
  let (definitions, sources) ← define definitions [] []
  recipe.build definitions sources

end Recipe
end Cadence
