/-
Berth.Json.Decode — JSON objects into records, as `encoding/json` decodes
into a struct.

A record type has a schema: for each field its name and what a value does
to a record. A key that is no field's name is looked up once more without
regard to case. Fields are read in the order of the text, so of two with
one key the later one counts, and a null leaves the record as it is, for
a field as for the whole.
-/
import Berth.Json.Value

namespace Berth.Json

/-! ## Names -/

/-- Case folding, as far as a letter of ASCII comes out of it. Two letters
beyond ASCII fold to one: the long s and the sign for Kelvin. -/
def foldChar (c : Char) : Char :=
  if 'A' ≤ c ∧ c ≤ 'Z' then Char.ofNat (c.toNat + 32)
  else if c = 'ſ' then 's'
  else if c = 'K' then 'k'
  else c

def foldName (s : String) : List Char := s.toList.map foldChar

/-! ## Records -/

variable {α β : Type}

/-- What a value does to a record; nothing if it is of the wrong type. -/
abbrev FieldReader (α : Type) := Value → α → Option α

abbrev Schema (α : Type) := List (String × FieldReader α)

/-- A field of some type, which a null does not touch. -/
def field (read : Value → Option β) (set : α → β → α) : FieldReader α := fun v a =>
  match v with
  | .null => some a
  | v => (read v).map (set a)

def readString : Value → Option String
  | .str s => some s
  | _ => none

def readBool : Value → Option Bool
  | .bool b => some b
  | _ => none

/-- A number is read from its literal. -/
def readNumber (read : String → Option β) : Value → Option β
  | .num literal => read literal
  | _ => none

/-- The field a key belongs to. -/
def Schema.field? (schema : Schema α) (key : String) : Option (FieldReader α) :=
  match schema.lookup key with
  | some r => some r
  | none => (schema.find? fun f => foldName f.1 = foldName key).map Prod.snd

/-- One field of the text. In a strict reading an unknown key is an error. -/
def decodeField (strict : Bool) (schema : Schema α) (a : α) (f : String × Value) : Option α :=
  match schema.field? f.1 with
  | some read => read f.2 a
  | none => if strict then none else some a

/-- A value into a record. -/
def decodeInto (strict : Bool) (schema : Schema α) (a : α) : Value → Option α
  | .null => some a
  | .obj fields => fields.foldlM (decodeField strict schema) a
  | _ => none

end Berth.Json
