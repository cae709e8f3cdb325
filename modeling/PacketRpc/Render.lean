import PacketRpc.Number.Shortest
import PacketRpc.Codec.Enumerated

/-!
# Rendering fields

A renderer extends a text. Each field adds ` name=value`, and an empty field adds nothing: false, a
number equal to zero, an empty text, an empty sequence, no reference. A sequence is shown with the
name of its element type and its length, then the elements, each behind a bar.
-/

namespace PacketRpc

/-- Extends a text. -/
abbrev Render := String → String

/-- A kind of number that can be shown. -/
class Shown (α : Type) where
  text : α → String
  /-- True of the values that a single field leaves out. -/
  isZero : α → Bool

instance : Shown Int8 := ⟨fun v => v.toInt.repr, (· == 0)⟩
instance : Shown UInt8 := ⟨fun v => v.toNat.repr, (· == 0)⟩
instance : Shown Int16 := ⟨fun v => v.toInt.repr, (· == 0)⟩
instance : Shown UInt16 := ⟨fun v => v.toNat.repr, (· == 0)⟩
instance : Shown Int32 := ⟨fun v => v.toInt.repr, (· == 0)⟩
instance : Shown Int64 := ⟨fun v => v.toInt.repr, (· == 0)⟩
instance : Shown Binary32 := ⟨Binary32.text, fun v => v.decode.isZero⟩
instance : Shown Binary64 := ⟨Binary64.text, fun v => v.decode.isZero⟩
instance : Shown String := ⟨id, fun s => s.isEmpty⟩

namespace Render

/-- Adds a text as it is. -/
def put (s : String) : Render := fun out => out ++ s

/-- Adds nothing. -/
def nothing : Render := id

/-- Adds what `a` adds and then what `b` adds. -/
def followedBy (a b : Render) : Render := fun out => b (a out)

instance : Append Render := ⟨followedBy⟩

/-- Adds what each renderer adds, in order. -/
def all : List Render → Render
  | [] => nothing
  | r :: rs => r ++ all rs

/-- The text a renderer adds. -/
def text (r : Render) : String := r ""

/-- A named field. -/
def field (name : String) (value : Render) : Render := put (" " ++ name ++ "=") ++ value

/-- A sequence of elements, which are of the type `label`; none for an empty one. -/
def sequence {α : Type} (name label : String) (f : α → Render) (as : List α) : Render :=
  if as.isEmpty then nothing
  else field name (put ("\x7b" ++ label ++ " *" ++ as.length.repr)
    ++ all (as.map fun a => put "|" ++ f a) ++ put "\x7d")

/-- A text in quotes; nothing inside it is escaped. -/
def quoted (s : String) : Render := put ("\"" ++ s ++ "\"")

/-- A boolean, shown as 1 when true. -/
def bool (name : String) (b : Bool) : Render := if b then field name (put "1") else nothing

/-- A number other than zero. -/
def number {α : Type} [Shown α] (name : String) (v : α) : Render :=
  if Shown.isZero v then nothing else field name (put (Shown.text v))

/-- A text that is not empty. -/
def string (name s : String) : Render :=
  if s.isEmpty then nothing else field name (quoted s)

/-- A member of an enumeration, always shown. -/
def member {α : Type} [Enumerated α] (name : String) (a : α) : Render :=
  field name (put (Enumerated.label a))

/-- Numbers, zeros included. -/
def numbers {α : Type} [Shown α] (name label : String) (vs : List α) : Render :=
  sequence name label (fun v => put (Shown.text v)) vs

/-- Booleans, as 1 and 0. -/
def bools (name : String) (bs : List Bool) : Render :=
  sequence name "bool" (fun b => put (if b then "1" else "0")) bs

/-- Texts, each in quotes. -/
def strings (name : String) (ss : List String) : Render := sequence name "string" quoted ss

/-- Members of an enumeration. -/
def members {α : Type} [Enumerated α] (name label : String) (as : List α) : Render :=
  sequence name label (fun a => put (Enumerated.label a)) as

end Render
end PacketRpc
