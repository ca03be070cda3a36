import DartReach.Yaml.Node
import DartReach.Yaml.Token.Lexer

/-!
# From tokens to nodes

The grammar of documents. Only the first document of a stream is read; what stands behind it is not looked
at, except for the one token that ends it.
-/

namespace DartReach.Yaml

set_option autoImplicit false

inductive Anchored where
  | done (node : Node)
  | pending (header : Header)

structure Reader where
  tokens : List Token
  /-- What happens behind the tokens. -/
  fault : Option Error
  /-- Anchors, the latest first. -/
  anchors : List (List Char × Anchored)
  /-- Tag handles and what they stand for. -/
  handles : List (List Char × List Char)

namespace Reader

def peek (r : Reader) : Except Error Token :=
  match r.tokens, r.fault with
  | t :: _, _ => .ok t
  | [], some e => .error e
  | [], none => .ok ⟨.streamEnd, ⟨0, 0, 0⟩⟩

def skip (r : Reader) : Reader := { r with tokens := r.tokens.drop 1 }

def define (r : Reader) (name : List Char) (a : Anchored) : Reader :=
  if name.isEmpty then r else { r with anchors := (name, a) :: r.anchors }

/-- Replaces the latest collection of a name that is still being read. -/
def complete (name : List Char) (node : Node) :
    List (List Char × Anchored) → List (List Char × Anchored)
  | [] => []
  | (n, .pending h) :: rest =>
    if n = name then (n, .done node) :: rest else (n, .pending h) :: complete name node rest
  | entry :: rest => entry :: complete name node rest

/-- Notes that a collection was read to its end. -/
def close (r : Reader) (name : List Char) (node : Node) : Reader :=
  if name.isEmpty then r else { r with anchors := complete name node r.anchors }

def resolveAlias (r : Reader) (mark : Mark) (name : List Char) : Except Error Node :=
  match r.anchors.lookup name with
  | some (.done node) => .ok (.alias (mark.line + 1) name node)
  | some (.pending header) => .ok (.loop (mark.line + 1) name header)
  | none => .error ⟨0, .unknownAnchor (encode name)⟩

def expandTag (r : Reader) (began mark : Mark) (handle suffix : List Char) :
    Except Error (List Char) :=
  if handle.isEmpty then .ok suffix
  else
    match r.handles.lookup handle with
    | some expansion => .ok (expansion ++ suffix)
    | none => .error (Error.inNode began mark .unknownHandle)

structure Properties where
  start : Mark
  anchor : List Char
  tag : List Char

/-- Reads an anchor and a tag, in any order. -/
def properties (r : Reader) : Except Error (Properties × Reader) := do
  let t ← r.peek
  match t.kind with
  | .anchor name =>
    let r := r.skip
    let u ← r.peek
    match u.kind with
    | .tag handle suffix =>
      let r := r.skip
      let _ ← r.peek
      let tag ← r.expandTag t.start u.start handle suffix
      .ok (⟨t.start, name, tag⟩, r)
    | _ => .ok (⟨t.start, name, []⟩, r)
  | .tag handle suffix =>
    let r := r.skip
    let u ← r.peek
    match u.kind with
    | .anchor name =>
      let r := r.skip
      let _ ← r.peek
      let tag ← r.expandTag t.start t.start handle suffix
      .ok (⟨t.start, name, tag⟩, r)
    | _ =>
      let tag ← r.expandTag t.start t.start handle suffix
      .ok (⟨t.start, [], tag⟩, r)
  | _ => .ok (⟨t.start, [], []⟩, r)

/-- Whether a token ends an entry of a block mapping. -/
def endsEntry : Token.Kind → Bool
  | .key => true
  | .value => true
  | .blockEnd => true
  | _ => false

/-- Whether a token ends an item of a block sequence. -/
def endsItem : Token.Kind → Bool
  | .dash => true
  | .blockEnd => true
  | _ => false

/-- Whether a token ends an entry between braces or brackets. -/
def endsFlowEntry (closing : Token.Kind) (kind : Token.Kind) : Bool := kind = .comma || kind = closing

mutual

/--
Reads a node. In a block it may be a block collection; where a mapping expects a value, a sequence need not
be indented.
-/
def node (inBlock looseDash : Bool) : Nat → Reader → Except Error (Node × Reader)
  | 0, _ => .error ⟨0, .noContent⟩
  | n + 1, r => do
    let t ← r.peek
    match t.kind with
    | .alias name =>
      let a ← r.resolveAlias t.start name
      .ok (a, r.skip)
    | _ =>
      let (p, r) ← r.properties
      let t ← r.peek
      let header (isMapping : Bool) : Header :=
        ⟨p.start.line + 1, Node.collectionTag p.tag isMapping, isMapping⟩
      let sequence (r : Reader) (read : Reader → Except Error (List Node × Reader)) :
          Except Error (Node × Reader) := do
        let h := header false
        let (items, r) ← read (r.define p.anchor (.pending h))
        let seq := Node.sequence h.line h.tag items
        .ok (seq, r.close p.anchor seq)
      let mapping (r : Reader) (read : Reader → Except Error (List (Node × Node) × Reader)) :
          Except Error (Node × Reader) := do
        let h := header true
        let (entries, r) ← read (r.define p.anchor (.pending h))
        let map := Node.mapping h.line h.tag entries
        .ok (map, r.close p.anchor map)
      match t.kind with
      | .scalar content style =>
        let s := Node.ofScalar p.start p.tag style content
        .ok (s, (r.define p.anchor (.done s)).skip)
      | .openBracket => sequence r.skip (flowSequence t.start true n · [])
      | .openBrace => mapping r.skip (flowMapping t.start true n · [])
      | .dash =>
        if looseDash then sequence r (looseSequence n · [])
        else bare p t r
      | .blockSequence =>
        if inBlock then sequence r.skip (blockSequence t.start n · []) else bare p t r
      | .blockMapping =>
        if inBlock then mapping r.skip (blockMapping t.start n · []) else bare p t r
      | _ => bare p t r

def bare (p : Properties) (t : Token) (r : Reader) : Except Error (Node × Reader) :=
  if p.anchor.isEmpty && p.tag.isEmpty then .error (Error.inNode p.start t.start .noContent)
  else
    let s := Node.ofScalar p.start p.tag .plain []
    .ok (s, r.define p.anchor (.done s))

def blockSequence (began : Mark) : Nat → Reader → (rev : List Node) → Except Error (List Node × Reader)
  | 0, _, _ => .error ⟨0, .noContent⟩
  | n + 1, r, rev => do
    let t ← r.peek
    match t.kind with
    | .dash =>
      let r := r.skip
      let u ← r.peek
      if endsItem u.kind then blockSequence began n r (Node.empty t.start :: rev)
      else
        let (item, r) ← node true false n r
        blockSequence began n r (item :: rev)
    | .blockEnd => .ok (rev.reverse, r.skip)
    | _ => .error (Error.inNode began t.start .noDash)

/-- Reads the items of a sequence that is not indented. -/
def looseSequence : Nat → Reader → (rev : List Node) → Except Error (List Node × Reader)
  | 0, _, _ => .error ⟨0, .noContent⟩
  | n + 1, r, rev => do
    let t ← r.peek
    match t.kind with
    | .dash =>
      let r := r.skip
      let u ← r.peek
      if endsItem u.kind || endsEntry u.kind then looseSequence n r (Node.empty t.start :: rev)
      else
        let (item, r) ← node true false n r
        looseSequence n r (item :: rev)
    | _ => .ok (rev.reverse, r)

def blockMapping (began : Mark) :
    Nat → Reader → (rev : List (Node × Node)) → Except Error (List (Node × Node) × Reader)
  | 0, _, _ => .error ⟨0, .noContent⟩
  | n + 1, r, rev => do
    let t ← r.peek
    match t.kind with
    | .key =>
      let r := r.skip
      let u ← r.peek
      let (key, r) ← if endsEntry u.kind then .ok (Node.empty t.start, r) else node true true n r
      let (value, r) ← blockValue n r
      blockMapping began n r ((key, value) :: rev)
    | .blockEnd => .ok (rev.reverse, r.skip)
    | _ => .error (Error.inNode began t.start .noKey)

def blockValue : Nat → Reader → Except Error (Node × Reader)
  | 0, _ => .error ⟨0, .noContent⟩
  | n + 1, r => do
    let t ← r.peek
    match t.kind with
    | .value =>
      let r := r.skip
      let u ← r.peek
      if endsEntry u.kind then .ok (Node.empty t.start, r) else node true true n r
    | _ => .ok (Node.empty t.start, r)

def flowSequence (began : Mark) (first : Bool) :
    Nat → Reader → (rev : List Node) → Except Error (List Node × Reader)
  | 0, _, _ => .error ⟨0, .noContent⟩
  | n + 1, r, rev => do
    let t ← r.peek
    if t.kind = .closeBracket then .ok (rev.reverse, r.skip)
    else if !first && t.kind ≠ .comma then .error (Error.inNode began t.start .openSequence)
    else
      let r := if first then r else r.skip
      let t ← r.peek
      match t.kind with
      | .closeBracket => .ok (rev.reverse, r.skip)
      | .key =>
        let (pair, r) ← flowPair t.start n r.skip
        flowSequence began false n r (pair :: rev)
      | _ =>
        let (item, r) ← node false false n r
        flowSequence began false n r (item :: rev)

/-- Reads an item between brackets that is a mapping of one entry. -/
def flowPair (began : Mark) : Nat → Reader → Except Error (Node × Reader)
  | 0, _ => .error ⟨0, .noContent⟩
  | n + 1, r => do
    let t ← r.peek
    let (key, r) ←
      if t.kind = .value || endsFlowEntry .closeBracket t.kind then .ok (Node.empty t.start, r.skip)
      else node false false n r
    let (value, r) ← flowValue .closeBracket n r
    .ok (.mapping (began.line + 1) TagName.mapping [(key, value)], r)

def flowValue (closing : Token.Kind) : Nat → Reader → Except Error (Node × Reader)
  | 0, _ => .error ⟨0, .noContent⟩
  | n + 1, r => do
    let t ← r.peek
    if t.kind = .value then
      let r := r.skip
      let u ← r.peek
      if endsFlowEntry closing u.kind then .ok (Node.empty u.start, r) else node false false n r
    else .ok (Node.empty t.start, r)

def flowMapping (began : Mark) (first : Bool) :
    Nat → Reader → (rev : List (Node × Node)) → Except Error (List (Node × Node) × Reader)
  | 0, _, _ => .error ⟨0, .noContent⟩
  | n + 1, r, rev => do
    let t ← r.peek
    if t.kind = .closeBrace then .ok (rev.reverse, r.skip)
    else if !first && t.kind ≠ .comma then .error (Error.inNode began t.start .openMapping)
    else
      let r := if first then r else r.skip
      let t ← r.peek
      match t.kind with
      | .closeBrace => .ok (rev.reverse, r.skip)
      | .key =>
        let r := r.skip
        let u ← r.peek
        let (key, r) ←
          if u.kind = .value || endsFlowEntry .closeBrace u.kind then .ok (Node.empty u.start, r)
          else node false false n r
        let (value, r) ← flowValue .closeBrace n r
        flowMapping began false n r ((key, value) :: rev)
      | _ =>
        let (key, r) ← node false false n r
        let u ← r.peek
        flowMapping began false n r ((key, Node.empty u.start) :: rev)

end

/-- Handles that need no directive. -/
def defaultHandles : List (List Char × List Char) :=
  [(['!'], ['!']), (['!', '!'], TagName.longStart)]

/-- The mark of errors that concern no collection. -/
def outside : Mark := ⟨0, 0, 0⟩

/-- Reads the directives of a document; `version` tells whether there was a version. -/
def directives : Nat → (version : Bool) → Reader → Except Error Reader
  | 0, _, r => .ok r
  | n + 1, version, r => do
    let t ← r.peek
    match t.kind with
    | .version major minor =>
      if version then .error (Error.inNode outside t.start .twoVersions)
      else if major ≠ 1 || minor ≠ 1 then .error (Error.inNode outside t.start .otherVersion)
      else directives n true r.skip
    | .tagHandle handle expansion =>
      if (r.handles.lookup handle).isSome then .error (Error.inNode outside t.start .twoHandles)
      else directives n version { r.skip with handles := r.handles ++ [(handle, expansion)] }
    | _ => .ok r

def endsDocument : Token.Kind → Bool
  | .version .. => true
  | .tagHandle .. => true
  | .documentStart => true
  | .documentEnd => true
  | .streamEnd => true
  | _ => false

def explicitDocument (fuel : Nat) (r : Reader) : Except Error (Node × Reader) := do
  let r ← directives fuel false r
  let t ← r.peek
  if t.kind ≠ .documentStart then .error (Error.inNode outside t.start .noDocumentStart)
  else
    let r := { r.skip with handles := r.handles ++ defaultHandles }
    let t ← r.peek
    if endsDocument t.kind then .ok (Node.empty t.start, r) else node true false fuel r

/-- Reads the first document; `none` if there is none. -/
def document (fuel : Nat) (r : Reader) : Except Error (Option Node) := do
  let _ ← r.peek
  let r := r.skip
  let t ← r.peek
  if t.kind = .streamEnd then .ok none
  else
    let (root, r) ←
      match t.kind with
      | .version .. | .tagHandle .. | .documentStart => explicitDocument fuel r
      | _ => node true false fuel { r with handles := defaultHandles }
    let _ ← r.peek
    .ok (some root)

end Reader

/-- The root of the first document of a text; `none` if there is no document. -/
def Node.ofBytes (bytes : Bytes) : Except Error (Option Node) :=
  let tokens := Tokens.ofSource (Source.ofBytes bytes)
  Reader.document (4 * tokens.items.length + 4) ⟨tokens.items, tokens.fault, [], []⟩

end DartReach.Yaml
