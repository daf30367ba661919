import DiagramEditor.Markup.Entity
import DiagramEditor.Markup.Token

/-!
# What stands in front of the root element

A document may begin with a declaration of its version, and with a document type that declares
entities. Comments, processing instructions and blanks may stand around them. Of a document type only
the entities with a text of their own matter; what it says about elements is skipped, and so are
texts that are kept elsewhere.
-/

namespace DiagramEditor.Markup.Prolog

/-- The text behind blanks, comments and processing instructions. -/
def skipAsides? : (fuel : Nat) → Text → Option Text
  | 0, _ => none
  | fuel + 1, s =>
    match skipBlanks s with
    | '<' :: '!' :: '-' :: '-' :: rest => (Token.comment? rest).bind (skipAsides? fuel)
    | '<' :: '?' :: rest => (Token.instruction? rest).bind (skipAsides? fuel)
    | rest => some rest

/-- The text behind blanks, comments and processing instructions. -/
def behindAsides? (s : Text) : Option Text :=
  skipAsides? (s.length + 1) s

/-! ## The version -/

/-- The text behind the setting that begins with this word. -/
def setting? (word : String) (s : Text) : Option Text := do
  guard (Text.startsWith word.toList s)
  return (← Token.readAttribute? s).2

/-- The text behind the setting that begins with this word, if it is there. -/
def optionalSetting? (word : String) (s : Text) : Option Text :=
  if Text.startsWith word.toList s then setting? word s else some s

/-- The text behind blanks, which may be missing at the end of the declaration. -/
def settingBlanks? (s : Text) : Option Text :=
  if Text.startsWith "?>".toList s then some s else blanks? s

/-- The text behind the declaration of the version, if it is there. -/
def behindDeclaration? (s : Text) : Option Text :=
  match Text.stripFront? "<?xml ".toList s with
  | none => some s
  | some rest => do
    let rest ← settingBlanks? (← setting? "version" (skipBlanks rest))
    let rest ← if Text.startsWith "encoding".toList rest
      then (setting? "encoding" rest).bind settingBlanks? else some rest
    let rest ← optionalSetting? "standalone" rest
    Text.stripFront? "?>".toList (skipBlanks rest)

/-! ## The document type -/

/-- The text names a place elsewhere. -/
def isExternal (s : Text) : Bool :=
  Text.startsWith "SYSTEM".toList s || Text.startsWith "PUBLIC".toList s

/-- The text behind any quoted text in front. -/
def literal? (s : Text) : Option Text :=
  (quoted? (fun _ => false) s).map Prod.snd

/-- The text behind the name of a place elsewhere: one literal, or two if the place is public. -/
def external? (s : Text) : Option Text := do
  let rest ← (blanks? (s.drop 6)).bind literal?
  if Text.startsWith "PUBLIC".toList s then (blanks? rest).bind literal? else return rest

/-- What follows the text of an entity that is kept elsewhere. It may have a notation, unless it is a
`parameter`. -/
def externalEntity? (parameter : Bool) (s : Text) : Option Text := do
  let rest ← external? s
  match Text.stripFront? "NDATA".toList (skipBlanks rest) with
  | some notationName =>
    if parameter then return rest else return (← name? (← blanks? notationName)).2
  | none => return rest

/-- The entity whose declaration has been opened, and what follows the declaration. The document has
`size` bytes. An entity that is kept elsewhere is none. -/
def entity? (size : Nat) (s : Text) : Option (Option Entity × Text) := do
  let rest ← blanks? s
  let (parameter, rest) ← match rest with
    | '%' :: rest => (blanks? rest).map fun rest => (true, rest)
    | rest => some (false, rest)
  let (name, rest) ← name? rest
  let rest ← blanks? rest
  let (entity, rest) ← if isExternal rest
    then (externalEntity? parameter rest).map fun rest => (none, rest)
    else (quoted? (fun _ => false) rest).map fun (body, rest) =>
      (some { name, body, stop := size - (Text.byteLength rest + 1) }, rest)
  return (entity, ← Text.stripFront? ['>'] (skipBlanks rest))

/-- The text belongs to a declaration that is skipped. -/
def isSkipped (s : Text) : Bool :=
  ["<!ELEMENT", "<!ATTLIST", "<!NOTATION"].any fun keyword => Text.startsWith keyword.toList s

/-- The entities that are declared up to the closing bracket, and what follows the document type. -/
def declarations? (size : Nat) : (fuel : Nat) → Text → Option (List Entity × Text)
  | 0, _ => none
  | fuel + 1, s =>
    match skipBlanks s with
    | ']' :: rest => (Text.stripFront? ['>'] (skipBlanks rest)).map fun rest => ([], rest)
    | '<' :: '!' :: '-' :: '-' :: rest => (Token.comment? rest).bind (declarations? size fuel)
    | '<' :: '?' :: rest => (Token.instruction? rest).bind (declarations? size fuel)
    | s =>
      match Text.stripFront? "<!ENTITY".toList s with
      | some rest => do
        let (entity, rest) ← entity? size rest
        let (entities, rest) ← declarations? size fuel rest
        return (entity.toList ++ entities, rest)
      | none => do
        guard (isSkipped s)
        let (_, rest) ← Text.cutChar? '>' s
        declarations? size fuel rest

/-- The entities that the opened document type declares, and what follows it. -/
def doctype? (size : Nat) (s : Text) : Option (List Entity × Text) := do
  let (_, rest) ← name? (← blanks? s)
  let rest := skipBlanks rest
  let rest ← if isExternal rest then external? rest else some rest
  match skipBlanks rest with
  | '>' :: rest => return ([], rest)
  | '[' :: rest => declarations? size (rest.length + 1) rest
  | _ => none

/-! ## The whole -/

/-- The mark that a stored text may begin with. -/
def byteOrderMark : Char :=
  Char.ofNat 0xFEFF

/-- The declared entities, and the text from the root element on. A document type is accepted only
where `allowDoctype` says so. -/
def read? (allowDoctype : Bool) (s : Text) : Option (List Entity × Text) := do
  let rest := (Text.stripFront? [byteOrderMark] s).getD s
  let rest ← (behindDeclaration? rest).bind behindAsides?
  match Text.stripFront? "<!DOCTYPE".toList rest with
  | none => return ([], rest)
  | some rest =>
    guard allowDoctype
    let (entities, rest) ← doctype? (Text.byteLength s) rest
    return (entities, ← behindAsides? rest)

end DiagramEditor.Markup.Prolog
