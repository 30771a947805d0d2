import PeakLang.Yaml.Node
import PeakLang.Yaml.Token.Scan

namespace PeakLang.Yaml

/-- What has been said so far about handles of tags, and about anchors. -/
structure Context where
  /-- What the handles of tags stand for. -/
  handles : List (Text × Text)
  /-- The numbers of the anchors, the latest first. -/
  anchors : List (Text × Nat)
  /-- The nodes of the anchors. -/
  anchored : List (Nat × Node)

namespace Context

/-- The context at the start of a document: two handles stand for something. -/
def initial : Context := ⟨[("!", "!"), ("!!", Tag.stem)], [], []⟩

end Context

/-- Steps of reading a document. -/
abbrev Reader := StateT Context Lex

namespace Reader

def peek : Reader PlacedToken := Lex.peek

/-- Goes past the next token. -/
def advance : Reader Unit := Lex.advance

/-- Stops with a problem that shows at a token, in a part that starts at a mark. -/
def failFrom {α : Type} (start : Mark) (p : Problem) (token : PlacedToken) : Reader α :=
  throw ⟨p, start.line, token.mark.line⟩

/-- The anchor and the tag before a node, and where they start. -/
structure Labels where
  start : Mark
  anchor : Option Text
  tag : Option Text

def fullTag (start : Mark) (handle suffix : Text) (token : PlacedToken) : Reader Text := do
  if handle.isEmpty then return suffix
  else match (← get).handles.lookup handle with
    | some stem => return stem ++ suffix
    | none => failFrom start .unknownHandle token

/-- Reads the labels of a node: an anchor, a tag, or both in either order. -/
def labels : Reader Labels := do
  let first ← peek
  let start := first.mark
  match first.token with
  | .anchor name =>
    advance
    let second ← peek
    match second.token with
    | .tag handle suffix =>
      advance
      discard peek
      return ⟨start, some name, some (← fullTag start handle suffix second)⟩
    | _ => return ⟨start, some name, none⟩
  | .tag handle suffix =>
    advance
    let second ← peek
    match second.token with
    | .anchor name =>
      advance
      discard peek
      return ⟨start, some name, some (← fullTag start handle suffix first)⟩
    | _ => return ⟨start, none, some (← fullTag start handle suffix first)⟩
  | _ => return ⟨start, none, none⟩

/-- The tag that labels give. An exclamation mark alone gives none. -/
def Labels.nodeTag (l : Labels) : Option Tag :=
  match l.tag with
  | some name => if name == Text.ofString "!" then none else some (Tag.ofName name)
  | none => none

/-- Reads a node behind its labels, and remembers it if it has an anchor. The anchor can be used
inside the node already. -/
def remember (l : Labels) (read : Reader Node) : Reader Node :=
  match l.anchor with
  | none => read
  | some name => do
    let c ← get
    let number := c.anchors.length
    set { c with anchors := (name, number) :: c.anchors }
    let node ← read
    modify fun c => { c with anchored := (number, node) :: c.anchored }
    return node

/-- Reads a reference to an anchor. -/
def reference (name : Text) (mark : Mark) : Reader Node := do
  match (← get).anchors.lookup name with
  | some number => return .reference name number mark.index mark.line
  | none => throw (.ofProblem (.unknownAnchor name))

/-- Whether a token can end a key, or the value of one, in a block mapping. -/
def endsEntry : Token → Bool
  | .key | .value | .blockEnd => true
  | _ => false

/-- A node, or nothing on a line if the token is one that ends an entry. -/
def orBlank (ends : Token → Bool) (line : Nat) (read : Reader Node) : Reader Node := do
  if ends (← peek).token then return .blank line else read

mutual

/-- Reads a node. Block collections are taken only if `block` is set, and a sequence that is not
indented only if `indentless` is. -/
def node (block indentless : Bool) : (fuel : Nat) → Reader Node
  | 0 => do failFrom .start .noNode (← peek)
  | fuel + 1 => do
    let first ← peek
    match first.token with
    | .reference name =>
      advance
      reference name first.mark
    | _ =>
      let l ← labels
      let tag := l.nodeTag
      let line := l.start.line
      let next ← peek
      let labelled := l.anchor.isSome || l.tag.isSome
      let otherwise : Reader Node :=
        if labelled then remember l (return .scalar [] .plain tag line)
        else failFrom l.start .noNode next
      match next.token with
      | .scalar value style =>
        remember l do
          advance
          return .scalar value style tag line
      | .openBracket =>
        remember l do
          advance
          return .sequence (← flowItems fuel next.mark true) tag line
      | .openBrace =>
        remember l do
          advance
          return .mapping (← flowEntries fuel next.mark true) tag line
      | .item =>
        if indentless then remember l do return .sequence (← indentlessItems fuel) tag line
        else otherwise
      | .sequenceStart =>
        if block then
          remember l do
            advance
            return .sequence (← items fuel next.mark) tag line
        else otherwise
      | .mappingStart =>
        if block then
          remember l do
            advance
            return .mapping (← entries fuel next.mark) tag line
        else otherwise
      | _ => otherwise

/-- Reads the items of a block sequence that starts at a mark. -/
def items : (fuel : Nat) → (start : Mark) → Reader (List Node)
  | 0, start => do failFrom start .noItem (← peek)
  | fuel + 1, start => do
    let token ← peek
    match token.token with
    | .item =>
      advance
      let item ← orBlank (fun t => t == .item || t == .blockEnd) token.mark.line
        (node true false fuel)
      return item :: (← items fuel start)
    | .blockEnd =>
      advance
      return []
    | _ => failFrom start .noItem token

/-- Reads the items of a sequence that is not indented. -/
def indentlessItems : (fuel : Nat) → Reader (List Node)
  | 0 => return []
  | fuel + 1 => do
    let token ← peek
    match token.token with
    | .item =>
      advance
      let item ← orBlank (fun t => t == .item || endsEntry t) token.mark.line (node true false fuel)
      return item :: (← indentlessItems fuel)
    | _ => return []

/-- Reads the entries of a block mapping that starts at a mark. A key without a colon has nothing for
its value. -/
def entries : (fuel : Nat) → (start : Mark) → Reader (List (Node × Node))
  | 0, start => do failFrom start .noKey (← peek)
  | fuel + 1, start => do
    let token ← peek
    match token.token with
    | .key =>
      advance
      let key ← orBlank endsEntry token.mark.line (node true true fuel)
      let colon ← peek
      let value ←
        if colon.token == .value then do
          advance
          orBlank endsEntry colon.mark.line (node true true fuel)
        else pure (.blank colon.mark.line)
      return (key, value) :: (← entries fuel start)
    | .blockEnd =>
      advance
      return []
    | _ => failFrom start .noKey token

/-- Reads the items of a sequence in brackets that starts at a mark, up to its closing bracket; `first`
says that none has been read. A key and a value may stand without braces. -/
def flowItems : (fuel : Nat) → (start : Mark) → (first : Bool) → Reader (List Node)
  | 0, start, _ => do failFrom start .openSequence (← peek)
  | fuel + 1, start, first => do
    let token ← peek
    if token.token == .closeBracket then
      advance
      return []
    else
      if !first then
        if token.token == .comma then advance else failFrom start .openSequence token
      let token ← peek
      match token.token with
      | .closeBracket =>
        advance
        return []
      | .key =>
        advance
        let (key, value) ← pair fuel
        return .mapping [(key, value)] none token.mark.line :: (← flowItems fuel start false)
      | _ =>
        let item ← node false false fuel
        return item :: (← flowItems fuel start false)

/-- Reads a key and a value in a sequence in brackets. Where the key should be, a token that ends it is
passed over. -/
def pair : (fuel : Nat) → Reader (Node × Node)
  | 0 => do failFrom .start .noNode (← peek)
  | fuel + 1 => do
    let ends (t : Token) : Bool := t == .comma || t == .closeBracket
    let token ← peek
    let key ←
      if token.token == .value || ends token.token then do
        advance
        pure (.blank token.mark.line)
      else node false false fuel
    let colon ← peek
    if colon.token == .value then
      advance
      return (key, ← orBlank ends colon.mark.line (node false false fuel))
    else return (key, .blank colon.mark.line)

/-- Reads the entries of a mapping in braces that starts at a mark, up to its closing brace; `first`
says that none has been read. A node that is not marked as a key has nothing for its value. -/
def flowEntries : (fuel : Nat) → (start : Mark) → (first : Bool) → Reader (List (Node × Node))
  | 0, start, _ => do failFrom start .openMapping (← peek)
  | fuel + 1, start, first => do
    let token ← peek
    if token.token == .closeBrace then
      advance
      return []
    else
      if !first then
        if token.token == .comma then advance else failFrom start .openMapping token
      let token ← peek
      match token.token with
      | .closeBrace =>
        advance
        return []
      | .key =>
        advance
        let ends (t : Token) : Bool := t == .comma || t == .closeBrace
        let after ← peek
        let key ← orBlank (fun t => t == .value || ends t) after.mark.line (node false false fuel)
        let colon ← peek
        let value ←
          if colon.token == .value then do
            advance
            let next ← peek
            orBlank ends next.mark.line (node false false fuel)
          else pure (.blank colon.mark.line)
        return (key, value) :: (← flowEntries fuel start false)
      | _ =>
        let key ← node false false fuel
        let value := Node.blank (← peek).mark.line
        return (key, value) :: (← flowEntries fuel start false)

end

/-- Reads the directives before a document; `versioned` says that a version was among them. -/
def directives : (fuel : Nat) → (versioned : Bool) → (own : List Text) → Reader Unit
  | 0, _, _ => return ()
  | fuel + 1, versioned, own => do
    let token ← peek
    match token.token with
    | .version major minor =>
      if versioned then failFrom .start .repeatedVersion token
      else if major != 1 || minor != 1 then failFrom .start .otherVersion token
      else
        advance
        directives fuel true own
    | .handle name stem =>
      if own.contains name then failFrom .start .repeatedHandle token
      else
        modify fun c => { c with handles := (name, stem) :: c.handles }
        advance
        directives fuel versioned (name :: own)
    | _ => return ()

/-- Whether a token cannot start the content of a document behind its start. -/
def endsDocument : Token → Bool
  | .version .. | .handle .. | .documentStart | .documentEnd | .streamEnd => true
  | _ => false

/-- Reads the first document, if there is one. What follows it is not looked at, but for the tokens that
are read ahead. -/
def document (fuel : Nat) : Reader (Option Document) := do
  let first ← peek
  match first.token with
  | .streamEnd => return none
  | .version .. | .handle .. | .documentStart =>
    directives fuel false []
    let start ← peek
    if start.token != .documentStart then failFrom .start .noDocumentStart start
    advance
    let root ← orBlank endsDocument (← peek).mark.line (node true false fuel)
    finish root
  | _ => finish (← node true false fuel)
where
  /-- The document of its outermost node. -/
  finish (root : Node) : Reader (Option Document) := do
    discard peek
    return some ⟨root, (← get).anchored⟩

end Reader

end PeakLang.Yaml
