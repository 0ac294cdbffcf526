import Vre.Model.Knowledge

/-! # Primitives as Python admits them

The name of a `Primitive` is a text, and `json.dumps` rejects each value in its properties and
metadata that is no JSON value. Python admits more: a name may hold surrogates, which UTF-8 does
not encode, and `json.dumps` writes some values as others.
-/

namespace Vre

/-! ## Strings -/

/-- A code point of a `str`: a character, or a surrogate, by its offset from U+D800. -/
inductive CodePoint where
  | char (c : Char)
  | surrogate (offset : Fin 2048)
  deriving DecidableEq, Repr

def CodePoint.isChar : CodePoint → Bool
  | char _ => true
  | surrogate _ => false

/-- The character that stands for a code point in a text. -/
def CodePoint.shown : CodePoint → Char
  | char c => c
  | surrogate _ => '\ufffd'

abbrev PyStr := List CodePoint

namespace PyStr

def ofString (s : String) : PyStr :=
  s.toList.map .char

def text (s : PyStr) : String :=
  String.ofList (s.map CodePoint.shown)

def isEncodable (s : PyStr) : Bool :=
  s.all CodePoint.isChar

/-- `s.encode("utf-8")`, by the text that the bytes stand for. -/
def encode (s : PyStr) : Except PyException String :=
  if s.isEncodable then
    .ok s.text
  else
    raise .unicodeEncodeError "'utf-8' codec can't encode characters: surrogates not allowed"

/-- A function of texts, applied between the surrogates. The characters come first that stand
before the rest of the string. -/
def mapTexts (f : String → String) : List Char → PyStr → PyStr
  | before, [] => ofString (f (String.ofList before))
  | before, .char c :: rest => mapTexts f (before ++ [c]) rest
  | before, .surrogate offset :: rest =>
      ofString (f (String.ofList before)) ++ .surrogate offset :: mapTexts f [] rest

/-- `fold_name`: NFC and casefold leave a surrogate as it is, and it joins with no other code
point. -/
def foldName [NameFolding] (name : PyStr) : PyStr :=
  name.mapTexts Vre.foldName []

end PyStr

/-! ## Values -/

/-- What `json.dumps` makes of a value that is no JSON value, by its repr: the text of the value
that is read back, or nothing where it raises. It writes a tuple as a list, and the keys of a
dictionary as strings, of which the last is read back where two are equal. -/
class JsonEncoder where
  encode : String → Option Json

/-- An encoder that rejects every value that is no JSON value. -/
abbrev strictEncoder : JsonEncoder where
  encode := fun _ => none

def PyValue.written [JsonEncoder] : PyValue → PyValue
  | json text => .json text
  | object repr =>
      match JsonEncoder.encode repr with
      | some text => .json text
      | none => .object repr

def writtenProperties [JsonEncoder] (properties : Properties) : Properties :=
  properties.map fun e => (e.1, e.2.written)

def Relatum.written [JsonEncoder] (r : Relatum) : Relatum :=
  { r with metadata := writtenProperties r.metadata }

def Depth.written [JsonEncoder] (d : Depth) : Depth :=
  { d with properties := writtenProperties d.properties, relata := d.relata.map Relatum.written }

/-! ## Primitives -/

/-- A primitive under any `str` as its name. -/
structure PyPrimitive where
  id : UUID
  name : PyStr
  depths : List Depth
  provenance : Option Provenance
  metrics : Option PrimitiveMetrics
  deriving DecidableEq, Repr

namespace PyPrimitive

def nameLower [NameFolding] (p : PyPrimitive) : PyStr :=
  p.name.foldName

/-- The primitive under its name as a text. -/
def toPrimitive (p : PyPrimitive) : Primitive :=
  ⟨p.id, p.name.text, p.depths, p.provenance, p.metrics⟩

/-- The primitive with its values as `json.dumps` writes them. -/
def written [JsonEncoder] (p : PyPrimitive) : Primitive :=
  { p.toPrimitive with depths := p.depths.map Depth.written }

end PyPrimitive

def Primitive.toPy (p : Primitive) : PyPrimitive :=
  ⟨p.id, .ofString p.name, p.depths, p.provenance, p.metrics⟩

end Vre
