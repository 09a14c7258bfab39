/-! # What is given of an option

An option that takes a value can be given without one. Such a blank option differs from one that is
left out, for which a usual value stands, and from one whose value is empty. What it leads to is
settled where its value is needed. -/

namespace Phrasebook

/-- **What is given of an option that takes a value.** -/
inductive Given (α : Type) where
  | value (a : α)
  /-- The option is given, but no value with it. -/
  | blank
deriving DecidableEq

namespace Given

variable {α β ε : Type}

instance : Coe α (Given α) := ⟨.value⟩

/-- What is given, with a function applied to the value. -/
def map (f : α → β) : Given α → Given β
  | value a => .value (f a)
  | blank => .blank

/-- The value, or another one in place of a blank. -/
def getD (g : Given α) (default : α) : α :=
  match g with
  | value a => a
  | blank => default

/-- The value where one is needed, for which a blank is a fault. -/
def orFault (g : Given α) (fault : ε) : Except ε α :=
  match g with
  | value a => .ok a
  | blank => .error fault

/-- What is given, with the value read as one of another type if it can be. There is nothing to read
of a blank. -/
def read? (read : α → Option β) : Given α → Option (Given β)
  | value a => (read a).map .value
  | blank => some .blank

end Given

end Phrasebook
