import DiagramEditor.Json.Basic

/-!
# Reading JSON

A reader of the standard grammar: no comments, no comma behind the last item, no leading zeros, no
control characters inside strings, and nothing but blanks behind the value. Two `\u` escapes may
denote one character together as the halves of a surrogate pair. A half without the other one makes
a string unreadable, and likewise the object that has the string as a name.

Values nest, so the reader counts down a bound on the depth that is left. The length of the text
is such a bound, because each level takes at least one character.
-/

namespace DiagramEditor.Json

/-- The four blanks of the grammar. -/
def isBlank (c : Char) : Bool :=
  c == ' ' || c == '\n' || c == '\t' || c == '\r'

/-- The text without the blanks in front. -/
def skipBlanks (s : Text) : Text :=
  s.dropWhile isBlank

/-- The value of a hexadecimal digit. -/
def hexDigit? (c : Char) : Option Nat :=
  if c.isDigit then some (c.toNat - '0'.toNat)
  else if 'a' ≤ c ∧ c ≤ 'f' then some (c.toNat - 'a'.toNat + 10)
  else if 'A' ≤ c ∧ c ≤ 'F' then some (c.toNat - 'A'.toNat + 10)
  else none

/-- The number that four hexadecimal digits denote, and what follows them. -/
def hex4? : Text → Option (Nat × Text)
  | a :: b :: c :: d :: rest => do
    let n := (← hexDigit? a) * 4096 + (← hexDigit? b) * 256 + (← hexDigit? c) * 16 + (← hexDigit? d)
    return (n, rest)
  | _ => none

/-- The second half of a surrogate pair at the front, and what follows it. -/
def secondHalf? : Text → Option (Nat × Text)
  | '\\' :: 'u' :: s => (hex4? s).filter fun (n, _) => 0xDC00 ≤ n && n < 0xE000
  | _ => none

/-- The character behind `\u`, none for half a character, and what follows it. -/
def unicodeEscape? (s : Text) : Option (Option Char × Text) :=
  (hex4? s).map fun (n, rest) =>
    if n < 0xD800 || 0xE000 ≤ n then (some (Char.ofNat n), rest)
    -- A second half in front is half a character too.
    else if 0xDC00 ≤ n then (none, rest)
    else match secondHalf? rest with
      | some (m, rest) => (some (Char.ofNat (0x10000 + (n - 0xD800) * 0x400 + (m - 0xDC00))), rest)
      | none => (none, rest)

/-- The character that a letter behind a backslash denotes. -/
def simpleEscape? : Char → Option Char
  | '"' => some '"'
  | '\\' => some '\\'
  | '/' => some '/'
  | 'b' => some '\x08'
  | 'f' => some '\x0c'
  | 'n' => some '\n'
  | 'r' => some '\r'
  | 't' => some '\t'
  | _ => none

/-- The rest of a string behind its opening quote, none if it is unreadable, and what follows the
closing quote. -/
def stringBody? : (fuel : Nat) → Text → Option (Option Text × Text)
  | 0, _ => none
  | _, [] => none
  | _ + 1, '"' :: rest => some (some [], rest)
  | fuel + 1, '\\' :: 'u' :: rest => do
    let (c, rest) ← unicodeEscape? rest
    let (s, rest) ← stringBody? fuel rest
    return (c.bind fun c => s.map (c :: ·), rest)
  | fuel + 1, '\\' :: e :: rest => do
    let c ← simpleEscape? e
    let (s, rest) ← stringBody? fuel rest
    return (s.map (c :: ·), rest)
  | fuel + 1, c :: rest => do
    guard (c ≠ '\\' && 0x20 ≤ c.toNat)
    let (s, rest) ← stringBody? fuel rest
    return (s.map (c :: ·), rest)

/-- The string at the front of the text, none if it is unreadable, and what follows it. -/
def string? : Text → Option (Option Text × Text)
  | '"' :: rest => stringBody? rest.length rest
  | _ => none

/-- A run of at least one digit, and what follows it. -/
def digits? (s : Text) : Option (Text × Text) :=
  let ds := s.takeWhile Char.isDigit
  if ds.isEmpty then none else some (ds, s.dropWhile Char.isDigit)

/-- The whole part of a number, and what follows it. -/
def wholePart? : Text → Option (Text × Text)
  | '0' :: rest => if (rest.head?.map Char.isDigit).getD false then none else some (['0'], rest)
  | s => digits? s

/-- The fraction of a number, if there is one, and what follows it. -/
def fraction? : Text → Option (Text × Text)
  | '.' :: s => (digits? s).map fun (ds, rest) => ('.' :: ds, rest)
  | s => some ([], s)

/-- The exponent of a number, if there is one, and what follows it. -/
def exponent? : Text → Option (Text × Text)
  | e :: s =>
    if e = 'e' || e = 'E' then
      match s with
      | '+' :: s => (digits? s).map fun (ds, rest) => (e :: '+' :: ds, rest)
      | '-' :: s => (digits? s).map fun (ds, rest) => (e :: '-' :: ds, rest)
      | s => (digits? s).map fun (ds, rest) => (e :: ds, rest)
    else some ([], e :: s)
  | [] => some ([], [])

/-- The number at the front of the text as it is written, and what follows it. -/
def number? (s : Text) : Option (Text × Text) := do
  let (sign, s) := match s with
    | '-' :: rest => (['-'], rest)
    | s => ([], s)
  let (whole, s) ← wholePart? s
  let (fraction, s) ← fraction? s
  let (exponent, s) ← exponent? s
  return (sign ++ whole ++ fraction ++ exponent, s)

mutual

/-- The value at the front of the text, and what follows it. -/
def value? : (fuel : Nat) → Text → Option (Json × Text)
  | 0, _ => none
  | fuel + 1, s =>
    match skipBlanks s with
    | '"' :: rest => (string? ('"' :: rest)).map fun (s, rest) => (s.elim .unreadable .string, rest)
    | '[' :: rest =>
      match skipBlanks rest with
      | ']' :: rest => some (.array [], rest)
      | rest => (items? fuel rest).map fun (items, rest) => (.array items, rest)
    | '{' :: rest =>
      match skipBlanks rest with
      | '}' :: rest => some (.object [], rest)
      | rest =>
        (members? fuel rest).map fun (members, rest) => (members.elim .unreadable .object, rest)
    | 'n' :: 'u' :: 'l' :: 'l' :: rest => some (.null, rest)
    | 't' :: 'r' :: 'u' :: 'e' :: rest => some (.bool true, rest)
    | 'f' :: 'a' :: 'l' :: 's' :: 'e' :: rest => some (.bool false, rest)
    | s => (number? s).map fun (numeral, rest) => (.number numeral, rest)

/-- The items up to the closing bracket, and what follows it. -/
def items? : (fuel : Nat) → Text → Option (List Json × Text)
  | 0, _ => none
  | fuel + 1, s => do
    let (item, rest) ← value? fuel s
    match skipBlanks rest with
    | ',' :: rest =>
      let (items, rest) ← items? fuel rest
      return (item :: items, rest)
    | ']' :: rest => return ([item], rest)
    | _ => none

/-- The members up to the closing brace, none if a name is unreadable, and what follows it. -/
def members? : (fuel : Nat) → Text → Option (Option (List (Text × Json)) × Text)
  | 0, _ => none
  | fuel + 1, s => do
    let (name, rest) ← string? (skipBlanks s)
    match skipBlanks rest with
    | ':' :: rest =>
      let (value, rest) ← value? fuel rest
      match skipBlanks rest with
      | ',' :: rest =>
        let (members, rest) ← members? fuel rest
        return (name.bind fun name => members.map ((name, value) :: ·), rest)
      | '}' :: rest => return (name.map fun name => [(name, value)], rest)
      | _ => none
    | _ => none

end

/-- The value that the text is. -/
def ofText? (s : Text) : Option Json := do
  let (value, rest) ← value? (s.length + 1) s
  guard (skipBlanks rest).isEmpty
  return value

end DiagramEditor.Json
