import PacketTrace.Json.Reader

/-!
# `Json.Container` — reading arrays, objects and records

The items of an array and the members of an object are read one by one, each by a reader of its own.
A record is an object with known fields, or an array with their values in the order of the fields.

## Contents
- **Items and members.** `item?` and `memberName?` look whether there is one more.
- **Containers.** `list`, `pair` and `members`.
- **Any value.** `skipValue` passes over a value of any form; what it demands of strings and numbers is a
  parameter.
- **Records.** `record` reads the fields that a schema lists.
- **Whole texts.** `whole` reads a value and demands that nothing follows it.
-/

namespace PacketTrace.Json.Reader

variable {α β σ : Type}

/-! ## Items and members -/

/-- Whether an array has one more item, whose value then comes next. -/
def hasItem (first : Bool) : Reader Bool := do
  let b ← peekByte
  if b = closeBracket then return false
  else if first then return true
  else if b = comma then
    skip
    if (← peekByte) = closeBracket then throw .badGrammar else return true
  else throw .badGrammar

/-- The next item of an array, if there is one. -/
def item? (first : Bool) (read : Reader α) : Reader (Option α) := do
  if ← hasItem first then some <$> read else return none

/-- The next item of an array that must have one. -/
def item (first : Bool) (read : Reader α) : Reader α := do
  match ← item? first read with
  | some value => return value
  | none => throw .badContent

/-- The end of an array with a fixed number of items. More items are bad grammar, even if the text
    ends after the comma. -/
def endArray : Reader Unit := do
  if (← peekByte) = closeBracket then skip else throw .badGrammar

/-- Whether an object has one more member, whose name then comes next. -/
def hasMember (first : Bool) : Reader Bool := do
  let b ← peekByte
  if b = closeBrace then return false
  else if first then
    if b = quote then return true else throw .badGrammar
  else if b = comma then
    skip
    if (← peekByte) = quote then return true else throw .badGrammar
  else throw .badGrammar

/-! ## Containers -/

/-- The items of an array up to its end, which is passed over. -/
def items (read : Reader α) : Nat → Bool → List α → Reader (List α)
  | 0, _, _ => throw .badGrammar
  | fuel + 1, first, before => do
    match ← item? first read with
    | some value => items read fuel false (value :: before)
    | none =>
      skip
      return before.reverse

/-- An array of values of one form; there cannot be more of them than bytes. -/
def list (read : Reader α) : Reader (List α) := do
  if (← peekByte) = openBracket then
    skip
    items read ((← get).length + 1) true []
  else wrongType

/-- An array of two values. -/
def pair (readFirst : Reader α) (readSecond : Reader β) : Reader (α × β) := do
  if (← peekByte) = openBracket then
    skip
    let a ← item true readFirst
    let b ← item false readSecond
    endArray
    return (a, b)
  else wrongType

/-- The members of an object up to its end, which is passed over. The reader `take` is called after each
    name; it reads the colon and the value and adds to what is known. -/
def membersFrom (name : Reader Text) (take : σ → Text → Reader σ) : Nat → Bool → σ → Reader σ
  | 0, _, _ => throw .badGrammar
  | fuel + 1, first, known => do
    if ← hasMember first then
      let key ← name
      membersFrom name take fuel false (← take known key)
    else
      skip
      return known

/-- The members of an object, from its opening brace on. -/
def members (name : Reader Text) (take : σ → Text → Reader σ) (start : σ) : Reader σ := do
  skip
  membersFrom name take ((← get).length + 1) true start

/-! ## Any value -/

/-- What is demanded of the scalars in a value of any form. -/
structure Demands where
  /-- A string, which may be of interest. -/
  string : Reader (Option Text)
  number : Reader Unit

/-- Strings must be text and numbers must be finite. -/
def strict : Demands where
  string := some <$> Reader.string
  number := do let _ ← Reader.number

/-- Only the grammar matters. -/
def lenient : Demands where
  string := do
    skipString
    return none
  number := skipNumber

/-- A scalar; what begins a container is left to `container`. -/
def scalarOr (demands : Demands) (container : UInt8 → Reader (Option Text)) : Reader (Option Text) := do
  let b ← peekByte
  if b = lowerN then
    word (ascii "null")
    return none
  else if b = lowerT then
    word (ascii "true")
    return none
  else if b = lowerF then
    word (ascii "false")
    return none
  else if startsNumber b then
    demands.number
    return none
  else if b = quote then demands.string
  else container b

/-- A value of any form, with at most so many containers inside each other; the value itself if it is a
    string. -/
def skipValue (demands : Demands) : Nat → Reader (Option Text)
  | 0 => scalarOr demands fun _ => throw .badGrammar
  | depth + 1 =>
    scalarOr demands fun b => do
      if b = openBracket then
        let _ ← list (skipValue demands depth)
        return none
      else if b = openBrace then
        members ((·.getD []) <$> demands.string)
          (fun _ _ => do
            separator
            let _ ← skipValue demands depth)
          ()
        return none
      else throw .badGrammar

/-- A value that does not matter; it cannot hold more containers than bytes. -/
def ignored : Reader Unit := do
  let _ ← skipValue lenient (← get).length

/-! ## Records -/

/-- The fields of a record in the order of the schema, from an array. -/
def fieldsInOrder : Bool → List (Text × Reader β) → Reader (List (Text × β))
  | _, [] => do
    endArray
    return []
  | first, (name, read) :: rest => do
    let value ← item first read
    return (name, value) :: (← fieldsInOrder false rest)

/-- One more field of a record, after its name. A field that is given twice is refused before its second
    value; a field that the schema does not list is passed over. -/
def takeField (schema : List (Text × Reader β)) (known : List (Text × β)) (name : Text) :
    Reader (List (Text × β)) := do
  match schema.lookup name with
  | none =>
    separator
    ignored
    return known
  | some read =>
    if (known.lookup name).isSome then throw .badContent
    separator
    return known ++ [(name, ← read)]

/-- The fields of a record that are present. -/
def record (schema : List (Text × Reader β)) : Reader (List (Text × β)) := do
  let b ← peekByte
  if b = openBracket then
    skip
    fieldsInOrder true schema
  else if b = openBrace then members string (takeField schema) []
  else wrongType

/-! ## Whole texts -/

/-- The value that some bytes hold, with nothing but white space after it. -/
def whole (read : Reader α) (bytes : Bytes) : Except ReadError α := do
  let (value, rest) ← read bytes
  if rest.all isSpace then return value else throw .badGrammar

end PacketTrace.Json.Reader
