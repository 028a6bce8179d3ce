import Cadence.Duration

namespace Cadence

inductive Value where
  | null
  | bool (value : Bool)
  | int (value : Int)
  | text (value : String)
  | list (items : List Value)
  | duration (value : Duration)
  | left (value : Value)
  | right (value : Value)
  | some (value : Value)

namespace Value

instance : Inhabited Value := ⟨null⟩

mutual
def same : Value → Value → Bool
  | null, null => true
  | bool a, bool b => a == b
  | int a, int b => a == b
  | text a, text b => a == b
  | list a, list b => sameItems a b
  | duration a, duration b => a == b
  | left a, left b => same a b
  | right a, right b => same a b
  | some a, some b => same a b
  | _, _ => false

def sameItems : List Value → List Value → Bool
  | [], [] => true
  | a :: as, b :: bs => same a b && sameItems as bs
  | _, _ => false
end

mutual
theorem same_iff : ∀ a b : Value, same a b = true ↔ a = b
  | null, b => by cases b <;> simp [same]
  | bool _, b => by cases b <;> simp [same]
  | int _, b => by cases b <;> simp [same]
  | text _, b => by cases b <;> simp [same]
  | list items, b => by cases b <;> simp [same, sameItems_iff items]
  | duration _, b => by cases b <;> simp [same]
  | left a, b => by cases b <;> simp [same, same_iff a]
  | right a, b => by cases b <;> simp [same, same_iff a]
  | some a, b => by cases b <;> simp [same, same_iff a]

theorem sameItems_iff : ∀ a b : List Value, sameItems a b = true ↔ a = b
  | [], b => by cases b <;> simp [sameItems]
  | a :: as, b => by cases b <;> simp [sameItems, same_iff a, sameItems_iff as]
end

instance : DecidableEq Value := fun a b => decidable_of_iff _ (same_iff a b)

def ofOption : Option Value → Value
  | none => null
  | Option.some value => some value

def ofSum : Value ⊕ Value → Value := Sum.elim left right

def escape (c : Char) : String :=
  if c = '"' then "\\\""
  else if c = '\\' then "\\\\"
  else if c = '\n' then "\\n"
  else if c = '\r' then "\\r"
  else if c = '\t' then "\\t"
  else if c.toNat = 8 then "\\b"
  else if c.toNat = 12 then "\\f"
  else if c.toNat < 32 then
    "\\u00" ++ String.ofList [Nat.digitChar (c.toNat / 16), Nat.digitChar (c.toNat % 16)]
  else String.ofList [c]

def quote (content : String) : String :=
  "\"" ++ String.join (content.toList.map escape) ++ "\""

def tagged (tag content : String) : String := "\x7b\"" ++ tag ++ "\":" ++ content ++ "\x7d"

mutual
def json : Value → String
  | null => "null"
  | bool value => if value then "true" else "false"
  | int value => toString value
  | text content => quote content
  | list items => "[" ++ jsonItems items ++ "]"
  | duration value => tagged "dur" (quote (toString value.nanos))
  | left value => tagged "left" (json value)
  | right value => tagged "right" (json value)
  | some value => tagged "some" (json value)

def jsonItems : List Value → String
  | [] => ""
  | [item] => json item
  | item :: items => json item ++ "," ++ jsonItems items
end

def display : Value → String
  | text content => content
  | value => value.json

def renderSum : Value ⊕ Value → String
  | .inl value => "Left(" ++ value.json ++ ")"
  | .inr value => "Right(" ++ value.json ++ ")"

end Value
end Cadence
