import Treewalk.Text.Rune
import Treewalk.Yaml

/-!
# Settings files: reading a document

Reads the first document of a text: block mappings and sequences by indentation, flow collections
between brackets, scalars plain, quoted, or as blocks. Tags, anchors and explicit keys are not part of
settings files. What stands behind the first document is not looked at.

The readers share one cursor. Loops and nesting take fuel: a reader that goes on has moved the cursor,
so the length of the text is enough.
-/

namespace Treewalk.Yaml

/-- A place in a text; line and column count from zero. -/
structure Cursor where
  rest : Bytes
  line : Nat := 0
  column : Nat := 0

/-- Readers move a cursor or stop with a problem. -/
abbrev Reader := EStateM Problem Cursor

/-- Is this byte a blank inside a line? -/
def isGap (b : UInt8) : Bool := b = 0x20 || b = 0x09

/-- Does a text stop, or go on with a blank or a line break? -/
def atGap : Bytes → Bool
  | [] => true
  | b :: _ => isGap b || b = Bytes.newline

namespace Cursor

/-- The place behind one byte. -/
def next (c : Cursor) : Cursor :=
  match c.rest with
  | [] => c
  | b :: rest =>
    if b = Bytes.newline then ⟨rest, c.line + 1, 0⟩ else ⟨rest, c.line, c.column + 1⟩

/-- The byte that comes next. -/
def peek? (c : Cursor) : Option UInt8 := c.rest.head?

/-- Does the document end here? -/
def atDocumentEnd (c : Cursor) : Bool :=
  c.rest.isEmpty || (c.column = 0 && atMark c.rest)
where
  atMark : Bytes → Bool
    | 0x2D :: 0x2D :: 0x2D :: rest => atGap rest
    | 0x2E :: 0x2E :: 0x2E :: rest => atGap rest
    | _ => false

/-- Does an entry of a block sequence start here? -/
def atEntry (c : Cursor) : Bool := c.peek? = some 0x2D && atGap (c.rest.drop 1)

/-- Does the value of a key start here? -/
def atValue (c : Cursor) : Bool := c.peek? = some 0x3A && atGap (c.rest.drop 1)

end Cursor

/-! ## Small readers -/

/-- Goes over one byte. -/
def skip : Reader Unit := modify Cursor.next

/-- Goes over bytes of a kind. -/
def skipWhile (p : UInt8 → Bool) : Reader Unit :=
  modify fun c => (c.rest.takeWhile p).foldl (fun c _ => c.next) c

/-- The bytes of a kind that come next. -/
def takeWhile (p : UInt8 → Bool) : Reader Bytes := do
  let taken := (← get).rest.takeWhile p
  skipWhile p
  pure taken

/-- Goes to the next content. Blanks, comments and line breaks are skipped, but at the start of a line in
a block only spaces are. -/
def skipToContent (inFlow : Bool) : (fuel : Nat) → (fresh : Bool) → Reader Unit
  | 0, _ => pure ()
  | fuel + 1, fresh => do
    skipWhile fun b => b = 0x20 || (b = 0x09 && (inFlow || !fresh))
    match (← get).peek? with
    | some 0x23 =>
      skipWhile (· ≠ Bytes.newline)
      skipToContent inFlow fuel fresh
    | some 0x0A =>
      skip
      skipToContent inFlow fuel true
    | _ => pure ()

/-- Stops because no token starts here. -/
def noToken {α : Type} : Reader α := do
  let c ← get
  throw (.token c.line c.line "found character that cannot start any token")

/-- Line breaks between parts of a scalar: one stands for a blank, each further one for itself. -/
def fold (breaks : Nat) : Bytes :=
  if breaks = 1 then [0x20] else List.replicate (breaks - 1) Bytes.newline

/-- Goes over blanks and line breaks inside a scalar: the blanks if no break came, and the number of
breaks. -/
def skipFold : (fuel : Nat) → (gap : Bytes) → (breaks : Nat) → Reader (Bytes × Nat)
  | 0, gap, breaks => pure (gap, breaks)
  | fuel + 1, gap, breaks => do
    match (← get).peek? with
    | some b =>
      if isGap b then
        skip
        skipFold fuel (if breaks = 0 then gap ++ [b] else []) breaks
      else if b = Bytes.newline then
        skip
        skipFold fuel [] (breaks + 1)
      else pure (gap, breaks)
    | none => pure (gap, breaks)

/-! ## Plain scalars -/

/-- Does this byte end a plain scalar between brackets? -/
def isFlowMark (b : UInt8) : Bool :=
  b = 0x2C || b = 0x5B || b = 0x5D || b = 0x7B || b = 0x7D

/-- The bytes of a plain scalar up to a blank or its end. -/
def plainWord (inFlow : Bool) : Bytes → Bytes
  | [] => []
  | b :: rest =>
    if isGap b || b = Bytes.newline || (inFlow && isFlowMark b) then []
    else if b = 0x3A && (atGap rest || (inFlow && rest.head?.any isFlowMark)) then []
    else b :: plainWord inFlow rest

/-- A plain scalar whose further lines must be indented by `indent`. The cursor ends behind it and the
blanks that follow. -/
def plainFrom (inFlow : Bool) (indent : Int) :
    (fuel : Nat) → (done gap : Bytes) → (breaks : Nat) → Reader Bytes
  | 0, done, _, _ => pure done
  | fuel + 1, done, gap, breaks => do
    let c ← get
    if c.atDocumentEnd || c.peek? = some 0x23 then return done
    let word := plainWord inFlow c.rest
    if word.isEmpty then return done
    modify fun c => word.foldl (fun c _ => c.next) c
    let done := done ++ (if breaks = 0 then gap else fold breaks) ++ word
    let (gap, breaks) ← skipFold (fuel + 1) [] 0
    let c ← get
    if 0 < breaks && !inFlow && (c.column : Int) < indent then return done
    plainFrom inFlow indent fuel done gap breaks

/-- A plain scalar. -/
def plain (inFlow : Bool) (indent : Int) : Reader Node := do
  let c ← get
  let s ← plainFrom inFlow indent (c.rest.length + 1) [] [] 0
  pure (.plain (c.line + 1) s)

/-! ## Quoted scalars -/

/-- The code points that bytes stand for behind a backslash. -/
def escapes : List (UInt8 × Nat) :=
  [(0x30, 0x00), (0x61, 0x07), (0x62, 0x08), (0x74, 0x09), (0x09, 0x09), (0x6E, 0x0A),
    (0x76, 0x0B), (0x66, 0x0C), (0x72, 0x0D), (0x65, 0x1B), (0x20, 0x20), (0x22, 0x22),
    (0x27, 0x27), (0x2F, 0x2F), (0x5C, 0x5C), (0x4E, 0x85), (0x5F, 0xA0), (0x4C, 0x2028),
    (0x50, 0x2029)]

/-- The number of digits behind a letter that announces a code point. -/
def codeLength? (b : UInt8) : Option Nat :=
  if b = 0x78 then some 2 else if b = 0x75 then some 4 else if b = 0x55 then some 8 else none

/-- What a backslash and the bytes behind it stand for; the cursor is behind the backslash. -/
def escape (start : Nat) : Reader Bytes := do
  let c ← get
  let stop {α : Type} (m : String) : Reader α := throw (.token start c.line m)
  match c.peek? with
  | none => stop "found unexpected end of stream"
  | some b =>
    match escapes.find? fun e => e.1 = b with
    | some e =>
      skip
      pure (Rune.encode e.2)
    | none =>
      match codeLength? b with
      | none => stop "found unknown escape character"
      | some n =>
        let digits := (c.rest.drop 1).take n
        match digits? 16 digits with
        | none => stop "did not find expected hexdecimal number"
        | some code =>
          if digits.length < n then stop "did not find expected hexdecimal number"
          else if (0xD800 ≤ code && code ≤ 0xDFFF) || 0x10FFFF < code then
            stop "found invalid Unicode character escape code"
          else
            modify fun c => digits.foldl (fun c _ => c.next) c.next
            pure (Rune.encode code)

/-- The rest of a scalar between quotes; the cursor is inside. -/
def quotedFrom (quote : UInt8) (start : Nat) : (fuel : Nat) → (done : Bytes) → Reader Bytes
  | 0, done => pure done
  | fuel + 1, done => do
    let c ← get
    match c.peek? with
    | none => throw (.token start c.line "found unexpected end of stream")
    | some b =>
      if c.atDocumentEnd then throw (.token start c.line "found unexpected document indicator")
      else if b = quote then
        skip
        if quote = 0x27 && (← get).peek? = some quote then
          skip
          quotedFrom quote start fuel (done ++ [quote])
        else pure done
      else if isGap b || b = Bytes.newline then
        let (gap, breaks) ← skipFold (c.rest.length + 1) [] 0
        quotedFrom quote start fuel (done ++ if breaks = 0 then gap else fold breaks)
      else if b = 0x5C && quote = 0x22 then
        skip
        if (← get).peek? = some Bytes.newline then
          let (_, breaks) ← skipFold (c.rest.length + 1) [] 0
          quotedFrom quote start fuel (done ++ List.replicate (breaks - 1) Bytes.newline)
        else quotedFrom quote start fuel (done ++ (← escape start))
      else
        skip
        quotedFrom quote start fuel (done ++ [b])

/-- A scalar between quotes. -/
def quoted : Reader Node := do
  let c ← get
  skip
  let s ← quotedFrom (c.peek?.getD 0) c.line (c.rest.length + 1) []
  pure (.quoted (c.line + 1) s)

/-! ## Block scalars -/

/-- What the header of a block scalar asks for. -/
structure BlockStyle where
  isFolded : Bool
  /-- Line breaks at the end: all, one, or none. -/
  keepsAll : Bool := false
  keepsOne : Bool := true
  /-- The indentation, if it is given. -/
  indent : Option Nat := none

/-- Reads the marks of a header. -/
def BlockStyle.mark (s : BlockStyle) (b : UInt8) : BlockStyle :=
  if b = 0x2B then { s with keepsAll := true }
  else if b = 0x2D then { s with keepsOne := false }
  else { s with indent := some (b.toNat - 0x30) }

/-- The indentation that the first line with content has; empty lines may be longer. -/
def detectIndent : List Bytes → Nat → Nat
  | [], deepest => deepest
  | l :: rest, deepest =>
    let n := (l.takeWhile (· = 0x20)).length
    if n = l.length then detectIndent rest (max n deepest) else max n deepest

/-- A line of a block scalar: its content, or `none` if it has only blanks up to the indentation. -/
def blockLine? (indent : Nat) (l : Bytes) : Option (Option Bytes) :=
  let n := (l.takeWhile (· = 0x20)).length
  if n = l.length && n ≤ indent then some none
  else if indent ≤ n then some (some (l.drop indent))
  else none

/-- Joins the lines of a block scalar. `breaks` counts the line breaks since the last content, and
`wasBlank` tells that the last line began with a blank. -/
def blockText (isFolded : Bool) :
    List (Option Bytes) → (done : Bytes) → (breaks : Nat) → (wasBlank : Bool) → Bytes × Nat
  | [], done, breaks, _ => (done, breaks)
  | none :: rest, done, breaks, wasBlank => blockText isFolded rest done (breaks + 1) wasBlank
  | some l :: rest, done, breaks, wasBlank =>
    let blank := l.head?.any isGap
    let between :=
      if done.isEmpty then List.replicate breaks Bytes.newline
      else if isFolded && !wasBlank && !blank then fold breaks
      else List.replicate breaks Bytes.newline
    blockText isFolded rest (done ++ between ++ l) 1 blank

/-- A block scalar inside a block of indentation `parent`. -/
def block (parent : Int) : Reader Node := do
  let c ← get
  skip
  let marks ← takeWhile fun b => b = 0x2B || b = 0x2D || (0x31 ≤ b && b ≤ 0x39)
  skipWhile isGap
  if (← get).peek? = some 0x23 then skipWhile (· ≠ Bytes.newline)
  let style := marks.foldl BlockStyle.mark { isFolded := c.peek? = some 0x3E }
  match (← get).peek? with
  | none => pure ()
  | some b =>
    if b = Bytes.newline then skip
    else throw (.token c.line (← get).line "did not find expected comment or line break")
  let lines := (← get).rest.lines
  let indent := match style.indent with
    | some n => if 0 ≤ parent then parent.toNat + n else n
    | none => max (max (detectIndent lines 0) (parent + 1).toNat) 1
  let body := ((lines.map (blockLine? indent)).takeWhile Option.isSome).filterMap id
  let ended := body.length = lines.length
  modify fun c =>
    if ended then ⟨[], c.line + lines.length - 1, 0⟩
    else ⟨Bytes.join [Bytes.newline] (lines.drop body.length), c.line + body.length, 0⟩
  -- The last part of a text that ends in a line break is no line of its own.
  let body := if ended && body.getLast? = some none then body.dropLast else body
  let (s, breaks) := blockText style.isFolded body [] 0 false
  let ending := if s.isEmpty then (if style.keepsAll then breaks else 0)
    else if style.keepsAll then breaks else if style.keepsOne then min breaks 1 else 0
  pure (.quoted (c.line + 1) (s ++ List.replicate ending Bytes.newline))

/-! ## Collections -/

/-- The node of a value that is left out. -/
def emptyNode : Reader Node := do pure (.plain ((← get).line + 1) [])

mutual

/-- A node between brackets. -/
def flowNode : (fuel : Nat) → Reader Node
  | 0 => noToken
  | fuel + 1 => do
    let c ← get
    match c.peek? with
    | some 0x5B =>
      skip
      flowItems fuel c.line []
    | some 0x7B =>
      skip
      flowEntries fuel c.line []
    | some 0x22 | some 0x27 => quoted
    | some b =>
      if b = 0x2C || b = 0x5D || b = 0x7D || b = 0x3A then emptyNode
      else if b = 0x25 || b = 0x40 || b = 0x60 || b = 0x21 || b = 0x26 || b = 0x2A then noToken
      else plain true 0
    | none => emptyNode

/-- A node between brackets, and its value if it is a key. -/
def flowPair (fuel : Nat) : Reader (Node × Option Node) :=
  match fuel with
  | 0 => noToken
  | fuel + 1 => do
    let key ← flowNode fuel
    skipToContent true ((← get).rest.length + 1) false
    if (← get).peek? = some 0x3A then
      skip
      skipToContent true ((← get).rest.length + 1) false
      let value ← flowNode fuel
      skipToContent true ((← get).rest.length + 1) false
      pure (key, some value)
    else pure (key, none)

/-- The rest of a flow sequence; `done` holds its items, latest first. -/
def flowItems : (fuel : Nat) → (start : Nat) → (done : List Node) → Reader Node
  | 0, _, _ => noToken
  | fuel + 1, start, done => do
    skipToContent true ((← get).rest.length + 1) false
    if (← get).peek? = some 0x5D then
      skip
      return .sequence (start + 1) done.reverse
    let (key, value) ← flowPair fuel
    let item := match value with
      | some v => .mapping key.line [(key, v)]
      | none => key
    let c ← get
    match c.peek? with
    | some 0x2C =>
      skip
      flowItems fuel start (item :: done)
    | some 0x5D => flowItems fuel start (item :: done)
    | _ => throw (.structural start c.line "did not find expected ',' or ']'")

/-- The rest of a flow mapping; `done` holds its entries, latest first. -/
def flowEntries : (fuel : Nat) → (start : Nat) → (done : List (Node × Node)) → Reader Node
  | 0, _, _ => noToken
  | fuel + 1, start, done => do
    skipToContent true ((← get).rest.length + 1) false
    if (← get).peek? = some 0x7D then
      skip
      return .mapping (start + 1) done.reverse
    let (key, value) ← flowPair fuel
    let value ← match value with
      | some v => pure v
      | none => emptyNode
    let c ← get
    match c.peek? with
    | some 0x2C =>
      skip
      flowEntries fuel start ((key, value) :: done)
    | some 0x7D => flowEntries fuel start ((key, value) :: done)
    | _ => throw (.structural start c.line "did not find expected ',' or '\x7d'")

end

/-- Stops if a value mark stands here, where no key came before it. -/
def refuseValue : Reader Unit := do
  let c ← get
  if c.atValue then
    throw (.token c.line c.line "mapping values are not allowed in this context")

mutual

/-- A node inside a block of indentation `parent`. A `fresh` node may be a block collection of its own;
one behind a key on the same line may not. -/
def blockNode : (fuel : Nat) → (parent : Int) → (fresh : Bool) → Reader Node
  | 0, _, _ => noToken
  | fuel + 1, parent, fresh => do
    let c ← get
    if c.atDocumentEnd || (c.column : Int) ≤ parent then emptyNode
    else if c.atEntry then
      if fresh then blockItems fuel c.column c.line false []
      else
        throw (.token c.line c.line "block sequence entries are not allowed in this context")
    else if c.peek? = some 0x7C || c.peek? = some 0x3E then block parent
    else
      let key ← scalarOrFlow fuel parent
      skipWhile isGap
      let after ← get
      if !after.atValue then pure key
      else if fresh && after.line = c.line then blockEntries fuel c.column c.line key []
      else
        refuseValue
        pure key

/-- A scalar or a flow collection inside a block. -/
def scalarOrFlow (fuel : Nat) (parent : Int) : Reader Node :=
  match fuel with
  | 0 => noToken
  | fuel + 1 => do
    let c ← get
    match c.peek? with
    | some 0x5B | some 0x7B => flowNode fuel
    | some 0x22 | some 0x27 => quoted
    | some b =>
      if b = 0x3A && c.atValue then emptyNode
      else if b = 0x2C || b = 0x5D || b = 0x7D then
        throw (.structural c.line c.line "did not find expected node content")
      else if b = 0x25 || b = 0x40 || b = 0x60 || b = 0x21 || b = 0x26 || b = 0x2A || b = 0x09
          || (b = 0x3F && atGap (c.rest.drop 1)) then noToken
      else plain false (parent + 1)
    | none => emptyNode

/-- The rest of a block sequence whose entries stand at `indent`; the cursor is at an entry. One that
shares its indentation with the keys around it just ends where they go on. -/
def blockItems : (fuel : Nat) → (indent start : Nat) → (shared : Bool) → (done : List Node) →
    Reader Node
  | 0, _, _, _, _ => noToken
  | fuel + 1, indent, start, shared, done => do
    skip
    skipToContent false ((← get).rest.length + 1) false
    let item ← blockNode fuel indent true
    skipToContent false ((← get).rest.length + 1) true
    let c ← get
    if c.atDocumentEnd || c.column < indent then
      pure (.sequence (start + 1) (item :: done).reverse)
    else if c.column = indent && c.atEntry then
      blockItems fuel indent start shared (item :: done)
    else if c.column = indent && shared then
      pure (.sequence (start + 1) (item :: done).reverse)
    else throw (.structural start c.line "did not find expected '-' indicator")

/-- The rest of a block mapping whose keys stand at `indent`; a key was read, and the cursor is at its
value mark. -/
def blockEntries : (fuel : Nat) → (indent start : Nat) → (key : Node) →
    (done : List (Node × Node)) → Reader Node
  | 0, _, _, _, _ => noToken
  | fuel + 1, indent, start, key, done => do
    let mark ← get
    skip
    skipToContent false ((← get).rest.length + 1) false
    let c ← get
    let value ←
      if c.line = mark.line then blockNode fuel indent false
      else if c.column = indent && c.atEntry && !c.atDocumentEnd then
        blockItems fuel indent c.line true []
      else blockNode fuel indent true
    let done := (key, value) :: done
    skipToContent false ((← get).rest.length + 1) true
    let c ← get
    if c.atDocumentEnd || c.column < indent then pure (.mapping (start + 1) done.reverse)
    else if indent < c.column || c.atEntry then
      throw (.structural start c.line "did not find expected key")
    else
      let key ← scalarOrFlow fuel indent
      skipWhile isGap
      let after ← get
      if after.atValue && after.line = c.line then blockEntries fuel indent start key done
      else throw (.token c.line after.line "could not find expected ':'")

end

/-! ## Documents -/

/-- May this code point stand in a document? -/
def isAllowed (c : Nat) : Bool :=
  c = 0x09 || c = 0x0A || c = 0x0D || (0x20 ≤ c && c ≤ 0x7E) || c = 0x85
    || (0xA0 ≤ c && c ≤ 0xD7FF) || (0xE000 ≤ c && c ≤ 0xFFFD) || (0x10000 ≤ c && c ≤ 0x10FFFF)

/-- The number of bytes that a leading byte announces. -/
def announced? (a : UInt8) : Option Nat :=
  if a < 0x80 then some 1
  else if a < 0xC0 then none
  else if a < 0xE0 then some 2
  else if a < 0xF0 then some 3
  else if a < 0xF8 then some 4
  else none

/-- What is wrong with the bytes `a :: rest`, which start no character. -/
def octetFault (a : UInt8) (rest : Bytes) : String :=
  match announced? a with
  | none => "invalid leading UTF-8 octet"
  | some width =>
    let more := rest.take (width - 1)
    if more.length < width - 1 then "incomplete UTF-8 octet sequence"
    else if !more.all Rune.tail then "invalid trailing UTF-8 octet"
    else if a = 0xED || a = 0xF4 || 0xF5 ≤ a then "invalid Unicode character"
    else "invalid length of a UTF-8 sequence"

/-- The first problem of the characters of a text, of which the first `skip` bytes belong to a character
already looked at. -/
def runeProblem? : (skip : Nat) → Bytes → Option Problem
  | _, [] => none
  | skip + 1, _ :: rest => runeProblem? skip rest
  | 0, a :: rest =>
    let r := Rune.first a rest
    if r.isInvalid then some (.reading (text (octetFault a rest)))
    else if isAllowed r.code then runeProblem? (r.raw.length - 1) rest
    else some (.reading (text "control characters are not allowed"))

/-- A text whose line breaks are all newlines, without a mark of byte order in front. -/
def normalize : Bytes → Bytes
  | 0xEF :: 0xBB :: 0xBF :: rest => breaks rest
  | s => breaks s
where
  breaks : Bytes → Bytes
    | 0x0D :: 0x0A :: rest => 0x0A :: breaks rest
    | 0x0D :: rest => 0x0A :: breaks rest
    | 0xC2 :: 0x85 :: rest => 0x0A :: breaks rest
    | b :: rest => b :: breaks rest
    | [] => []

/-- Goes over directives and the mark that starts a document. The answer tells whether there is a
mark. -/
def skipStart : (fuel : Nat) → Reader Bool
  | 0 => pure false
  | fuel + 1 => do
    skipToContent false ((← get).rest.length + 1) true
    let c ← get
    if c.column = 0 && c.peek? = some 0x25 then
      skipWhile (· ≠ Bytes.newline)
      skipStart fuel
    else if c.column = 0 && c.rest.take 3 = [0x2D, 0x2D, 0x2D] && c.atDocumentEnd then
      modify fun c => c.next.next.next
      pure true
    else pure false

/-- The first document of a text, if there is one. -/
def document : Reader (Option Node) := do
  let fuel := 4 * (← get).rest.length + 8
  let marked ← skipStart fuel
  let mark ← get
  skipToContent false fuel !marked
  let c ← get
  if c.rest.isEmpty && !marked then pure none
  else some <$> blockNode fuel (-1) (!marked || mark.line < c.line)

/-- Reads the first document of a text. -/
def read (s : Bytes) : Except Problem (Option Node) :=
  match runeProblem? 0 s with
  | some p => .error p
  | none =>
    match document.run { rest := normalize s } with
    | .ok node _ => .ok node
    | .error p _ => .error p

end Treewalk.Yaml
