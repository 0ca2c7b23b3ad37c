import Mathlib.Logic.Equiv.Defs
import BrewServer.Lib.LeBytes

/-!
# Declared type structures

What a derived reader knows of a type: its name, its fields and its variants in the order
they are declared. A format that goes by this structure reads two types of one structure
alike.
-/

namespace BrewServer

/-- The structure of a declared type. A record's fields and a choice's variants are chains
of `field` and `variant`. -/
inductive Shape
  | u8
  | u32
  | u64
  | bool
  /-- A string whose length is a `u64`. -/
  | string
  /-- Sixteen bytes. -/
  | uuid
  | option (s : Shape)
  | record (name : String) (fields : Shape)
  | endOfFields
  | field (name : String) (s rest : Shape)
  | choice (name : String) (variants : Shape)
  | endOfVariants
  | variant (name : String) (s rest : Shape)

/-- The values of a structure. -/
def Shape.Value : Shape → Type
  | u8 => UInt8
  | u32 => UInt32
  | u64 => UInt64
  | bool => Bool
  | string => { s : String // s.utf8ByteSize < 256 ^ 8 }
  | uuid => BitVec 128
  | option s => Option s.Value
  | record _ fields => fields.Value
  | endOfFields => Unit
  | field _ s rest => s.Value × rest.Value
  | choice _ variants => variants.Value
  | endOfVariants => Empty
  | variant _ s rest => s.Value ⊕ rest.Value

/-- A format that reads a value off the front of a byte string by its structure alone. -/
abbrev Format := (s : Shape) → Bytes → Option s.Value

/-- A declared type: its structure, and its values as those of the structure. -/
structure Declared (α : Type) where
  shape : Shape
  equiv : shape.Value ≃ α

namespace Declared

variable {α β : Type}

def deserialize (d : Declared α) (format : Format) (bs : Bytes) : Option α := (format d.shape bs).map d.equiv

/-- The value of another declaration of the same structure. -/
def convert (d : Declared α) (e : Declared β) (h : d.shape = e.shape) (a : α) : β :=
  e.equiv (cast (congrArg Shape.Value h) (d.equiv.symm a))

theorem deserialize_convert (d : Declared α) (e : Declared β) (h : d.shape = e.shape) (format : Format) (bs : Bytes) :
    e.deserialize format bs = (d.deserialize format bs).map (d.convert e h) := by
  obtain ⟨s, toA⟩ := d
  obtain ⟨s', toB⟩ := e
  obtain rfl : s = s' := h
  unfold deserialize convert
  rw [Option.map_map]
  congr 1
  funext v
  show toB v = toB (toA.symm (toA v))
  rw [Equiv.symm_apply_apply]

end Declared

end BrewServer
