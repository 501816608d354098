import DocTypes.Signature.Basic
import DocTypes.Text.Blank

/-! # Lines of signature files

Both formats are read line by line, and a line tells by its own text what it does.  `LineEvent.of`
gives its events: it declares something that has no members, opens a frame that some later `end`
closes, closes one, or fails to name what it declares.  Comments and blanks at the ends do not
count.

In RBS the frames are modules, classes and interfaces.  RBI files are Ruby code, so methods, blocks
and conditionals open frames as well, and what these hold does not count, while a singleton class
passes on what it holds. -/

namespace DocTypes

/-- What a frame is for. -/
inductive FrameKind where
  /-- A declaration, which collects its members. -/
  | declaration (kind : SignatureKind) (name : Text)
  /-- A singleton class: what it holds belongs to the frame around it. -/
  | transparent
  /-- Code: what it holds does not count. -/
  | code
  deriving DecidableEq

/-- What a line does. -/
inductive LineEvent where
  /-- Declares something without members. -/
  | declares (kind : SignatureKind) (name : Text)
  /-- Opens a frame. -/
  | opens (frame : FrameKind)
  /-- Closes the innermost frame. -/
  | closes
  /-- Lacks the name that has to follow a keyword. -/
  | lacksName (keyword : Text)
  deriving DecidableEq

namespace SignatureLine

/-! ## Parts of a line -/

/-- The line without blanks at its ends and without a comment.  A comment begins with a number sign
that starts the line or follows a space. -/
def strip (line : Text) : Text :=
  let line := Text.trim line
  if line.startsWith "#" then [] else Text.trimEnd (Text.before " #" line)

/-- The first word of a line and what follows it. -/
def splitKeyword (line : Text) : Text × Text :=
  match line.cutAtFirst? Text.isBlank with
  | some (keyword, rest) => (keyword, Text.trimStart rest)
  | none => (line, [])

/-- The constant path at the front of a text, taken word by word for at most `words` words. -/
def takePath : (words : Nat) → Text → Text
  | 0, _ => []
  | words + 1, t =>
    let word := t.takeWhile Name.isWordPart
    match word with
    | [] => []
    | first :: _ =>
      if first.isDigit then []
      else
        match t.dropWhile Name.isWordPart with
        | ':' :: ':' :: rest =>
          match takePath words rest with
          | [] => word
          | more => word ++ Name.separator ++ more
        | _ => word

/-- The constant path at the front of a text, empty if there is none. -/
def leadingPath (t : Text) : Text :=
  match t.after? Name.separator with
  | some rest =>
    match takePath rest.length rest with
    | [] => []
    | path => Name.separator ++ path
  | none => takePath t.length t

/-- The constant path at the front of a text and what follows it. -/
def splitConstant? (t : Text) : Option (Text × Text) :=
  let path := leadingPath t
  if path = [] then none else some (path, Text.trimStart (t.drop path.length))

/-- Whether the last word of a text is `end`, where a semicolon also ends a word. -/
def endsWithEnd (t : Text) : Bool :=
  let words := (t.pieces fun c => Text.isBlank c || c == ';').filter (!·.isEmpty)
  words.getLast? == some ("end" : Text)

/-- The text without the separators in front. -/
def dropSeparators : Text → Text
  | ':' :: ':' :: cs => dropSeparators cs
  | cs => cs

/-- Whether a name begins with an uppercase letter. -/
def isCapitalized (name : Text) : Bool :=
  match dropSeparators name with
  | [] => false
  | c :: _ => c.isUpper

/-- Opens a frame, unless the rest of the line closes it again. -/
def opensUnlessEnded (frame : FrameKind) (rest : Text) : List LineEvent :=
  if endsWithEnd rest then [] else [.opens frame]

/-- What a line does that declares a module or a class.  It opens a frame unless what follows the
name is `whole` by itself. -/
def namespaceEvents (keyword rest : Text) (isWhole : Text → Bool) : List LineEvent :=
  let kind : SignatureKind := if keyword = "module" then .moduleDef else .classDef
  match splitConstant? rest with
  | none => [.lacksName keyword]
  | some (name, after) =>
    if isWhole after then [.declares kind name] else [.opens (.declaration kind name)]

/-- Declares the constant at the front of a line when what follows it is as `isDefined` asks. -/
def constantEvents (line : Text) (isDefined : Text → Bool) : List LineEvent :=
  match splitConstant? line with
  | none => []
  | some (name, after) =>
    if isCapitalized name && isDefined after then [.declares .constantDef name] else []

/-! ## RBS -/

/-- What a stripped line of an RBS file does.  A class may be an alias of another, and a colon gives
a constant its type. -/
def rbsEvents (line : Text) : List LineEvent :=
  let (keyword, rest) := splitKeyword line
  if keyword = "module" ∨ keyword = "class" then
    namespaceEvents keyword rest fun after => after.startsWith "=" || endsWithEnd after
  else if keyword = "interface" then
    let name := rest.takeWhile fun c => c != '[' && c != ' '
    opensUnlessEnded (.declaration .interfaceDef name) rest
  else if keyword = "end" then [.closes]
  -- Two colons continue a path, and only a single one is followed by a type.
  else constantEvents line fun after => after.startsWith ":" && !after.startsWith Name.separator

/-! ## RBI -/

/-- The words that open a block of code. -/
def blockKeywords : List Text := ["if", "unless", "case", "while", "until", "begin"]

/-- Whether a line ends in the beginning of a block, with or without parameters. -/
def opensBlock (line : Text) : Bool :=
  line.endsWith " do" || line == "do" || (Text.contains " do |" line && line.endsWith "|")

/-- What a stripped line of an RBI file does.  An assignment defines a constant, and comparing is no
assignment. -/
def rbiEvents (line : Text) : List LineEvent :=
  let (keyword, rest) := splitKeyword line
  if keyword = "class" ∧ rest.startsWith "<<" then opensUnlessEnded .transparent rest
  else if keyword = "module" ∨ keyword = "class" then namespaceEvents keyword rest endsWithEnd
  else if keyword = "def" then opensUnlessEnded .code rest
  else if keyword = "end" ∨ keyword = "end;" ∨ line.startsWith "end." then [.closes]
  else if keyword ∈ blockKeywords then opensUnlessEnded .code rest
  else
    -- The value that is assigned may begin a block on the same line.
    constantEvents line (fun after =>
        after.startsWith "=" && !after.startsWith "==" && !after.startsWith "=~")
      ++ if opensBlock line then [.opens .code] else []

end SignatureLine

/-- What a line of a signature file does. -/
def LineEvent.of (format : SignatureFormat) (line : Text) : List LineEvent :=
  let line := SignatureLine.strip line
  if line = [] then []
  else
    match format with
    | .rbs => SignatureLine.rbsEvents line
    | .rbi => SignatureLine.rbiEvents line

end DocTypes
