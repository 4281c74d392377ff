import LiveEdit.Number.Decimal

/-! JSON values. The members of an object keep their order. -/

namespace LiveEdit

inductive Json where
  | null
  | bool (value : Bool)
  /-- A number without fraction and exponent, other than minus zero. -/
  | integer (value : Int)
  /-- Any other number, as it is written. -/
  | decimal (value : Decimal)
  | string (value : String)
  | array (items : List Json)
  | object (members : List (String × Json))
  deriving Repr

namespace Json

instance : Inhabited Json := ⟨null⟩

def ofNat (n : Nat) : Json := integer n

def ofOption {α : Type} (f : α → Json) : Option α → Json
  | none => null
  | some a => f a

/-- The last member of a name, if the value is an object. -/
def member? (name : String) : Json → Option Json
  | object members => (members.reverse.find? (·.1 == name)).map (·.2)
  | _ => none

end Json

end LiveEdit
