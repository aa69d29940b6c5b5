import DatasetAudit.Yaml.Token
/-!
A YAML document as a tree of nodes. References stay in the tree by number; the document has the
node that each number stands for. A name that is anchored again gets a new number, which is the
count of the names known so far, so that later anchors may take it over.
-/

namespace DatasetAudit.Yaml

/-- A node of a document, with its tag if it has one. -/
inductive Node where
  | reference (number : Nat)
  | scalar (tag : Option String) (text : String) (style : ScalarStyle)
  | sequence (tag : Option String) (items : List Node)
  | mapping (tag : Option String) (members : List (Node × Node))
deriving Repr, Inhabited

/-- The node that stands where nothing is written. -/
def Node.empty : Node :=
  .scalar none "" .plain

/-- A document: its root, the nodes that references stand for by number, and how many parts it
has. -/
structure Document where
  root : Node
  anchored : List (Nat × Node)
  size : Nat

/-- The state between two nodes: the tokens that are left, the expansions of tag handles, and
what is known of anchors. `places` says which place holds the node of a number, the latest first,
and `nodes` which node stands at a place. -/
structure NodeReader where
  tokens : List Token
  handles : List (String × String) := []
  names : List (String × Nat) := []
  places : List (Nat × Nat) := []
  nodes : List (Nat × Node) := []
  size : Nat := 0

namespace NodeReader

/-- The kind of the next token, if there is one. -/
def next? (r : NodeReader) : Option Token :=
  r.tokens.head?

/-- Moves past a token. -/
def advance (r : NodeReader) : NodeReader :=
  { r with tokens := r.tokens.drop 1 }

/-- Counts parts of the document. -/
def count (r : NodeReader) (parts : Nat) : NodeReader :=
  { r with size := r.size + parts }

/-- Whether the next token is one of those that leave a place in a collection empty. -/
def isNext (r : NodeReader) (tokens : List Token) : Bool :=
  match r.next? with
  | some token => tokens.contains token
  | none => true

/-- Gives an anchor its number and its place. -/
def openAnchor (r : NodeReader) (name : String) : NodeReader × Nat :=
  let number := r.names.length
  let place := r.places.length
  ({ r with
      names := (name, number) :: r.names.filter fun known => known.1 != name
      places := (number, place) :: r.places }, place)

/-- Puts a node at its place. -/
def closeAnchor (r : NodeReader) (place : Option Nat) (node : Node) : NodeReader :=
  match place with
  | some place => { r with nodes := (place, node) :: r.nodes }
  | none => r

/-- The properties in front of a node: an anchor and a tag in either order, each of which may be
missing. -/
def properties (r : NodeReader) : Option String × Option (String × String) × NodeReader :=
  match r.tokens with
  | .anchor name :: .tag handle suffix :: rest =>
    (some name, some (handle, suffix), { r with tokens := rest })
  | .anchor name :: rest => (some name, none, { r with tokens := rest })
  | .tag handle suffix :: .anchor name :: rest =>
    (some name, some (handle, suffix), { r with tokens := rest })
  | .tag handle suffix :: rest => (none, some (handle, suffix), { r with tokens := rest })
  | _ => (none, none, r)

/-- A tag in full. A handle has to be known. -/
def resolveTag? (r : NodeReader) : Option (String × String) → Option (Option String)
  | none => some none
  | some (handle, suffix) =>
    if handle.isEmpty then some (some suffix)
    else (r.handles.lookup handle).map fun expansion => some (expansion ++ suffix)

/-- A scalar with the tag that is a mark alone has no tag. -/
def scalarTag (tag : Option String) : Option String :=
  if tag == some "!" then none else tag

mutual

/-- A node. `inBlock` says whether block collections may begin here, `loose` whether a sequence
may be written without further indentation. -/
def node? : Nat → Bool → Bool → NodeReader → Option (Node × NodeReader)
  | 0, _, _, _ => none
  | steps + 1, inBlock, loose, r =>
    match r.tokens with
    | .reference name :: rest =>
      (r.names.lookup name).map fun number =>
        (.reference number, { r.count 1 with tokens := rest })
    | _ => do
      let (anchor, tag, r) := r.properties
      let tag ← r.resolveTag? tag
      let (r, place) : NodeReader × Option Nat :=
        match anchor with
        | some name => let (r, place) := r.openAnchor name; (r, some place)
        | none => (r, none)
      let (node, r) ←
        match r.tokens with
        | .blockEntry :: _ =>
          if loose then
            (looseItems? steps (r.count 2)).map fun (items, r) => (.sequence tag items, r)
          else if anchor.isSome || tag.isSome then some (.scalar tag "" .plain, r.count 1)
          else none
        | .scalar text style :: rest =>
          some (.scalar (scalarTag tag) text style, { r.count 1 with tokens := rest })
        | .flowSequenceStart :: rest =>
          (flowItems? steps true { r.count 2 with tokens := rest }).map fun (items, r) =>
            (.sequence tag items, r)
        | .flowMappingStart :: rest =>
          (flowMembers? steps true { r.count 2 with tokens := rest }).map fun (members, r) =>
            (.mapping tag members, r)
        | token :: rest =>
          if inBlock && token == .blockSequenceStart then
            (blockItems? steps { r.count 2 with tokens := rest }).map fun (items, r) =>
              (.sequence tag items, r)
          else if inBlock && token == .blockMappingStart then
            (blockMembers? steps { r.count 2 with tokens := rest }).map fun (members, r) =>
              (.mapping tag members, r)
          else if anchor.isSome || tag.isSome then some (.scalar tag "" .plain, r.count 1)
          else none
        | [] =>
          if anchor.isSome || tag.isSome then some (.scalar tag "" .plain, r.count 1) else none
      some (node, r.closeAnchor place node)

/-- A node, or the empty one if one of the given tokens is next. -/
def nodeUnless? : Nat → Bool → Bool → List Token → NodeReader → Option (Node × NodeReader)
  | 0, _, _, _, _ => none
  | steps + 1, inBlock, loose, tokens, r =>
    if r.isNext tokens then some (.empty, r.count 1) else node? steps inBlock loose r

/-- The items of a block sequence, up to its end. -/
def blockItems? : Nat → NodeReader → Option (List Node × NodeReader)
  | 0, _ => none
  | steps + 1, r =>
    match r.next? with
    | some .blockEntry => do
      let (item, r) ← nodeUnless? steps true false [.blockEntry, .blockEnd] r.advance
      let (items, r) ← blockItems? steps r
      some (item :: items, r)
    | some .blockEnd => some ([], r.advance)
    | _ => none

/-- The items of a sequence that is not indented further than the mapping around it. -/
def looseItems? : Nat → NodeReader → Option (List Node × NodeReader)
  | 0, _ => none
  | steps + 1, r =>
    match r.next? with
    | some .blockEntry => do
      let (item, r) ← nodeUnless? steps true false [.blockEntry, .key, .value, .blockEnd] r.advance
      let (items, r) ← looseItems? steps r
      some (item :: items, r)
    | _ => some ([], r)

/-- The members of a block mapping, up to its end. -/
def blockMembers? : Nat → NodeReader → Option (List (Node × Node) × NodeReader)
  | 0, _ => none
  | steps + 1, r =>
    match r.next? with
    | some .key => do
      let (key, r) ← nodeUnless? steps true true [.key, .value, .blockEnd] r.advance
      let (value, r) ←
        match r.next? with
        | some .value => nodeUnless? steps true true [.key, .value, .blockEnd] r.advance
        | _ => some (.empty, r.count 1)
      let (members, r) ← blockMembers? steps r
      some ((key, value) :: members, r)
    | some .blockEnd => some ([], r.advance)
    | _ => none

/-- The items of a flow sequence, up to its end. A key with its value may stand as an item. -/
def flowItems? : Nat → Bool → NodeReader → Option (List Node × NodeReader)
  | 0, _, _ => none
  | steps + 1, first, r =>
    match r.next? with
    | some .flowSequenceEnd => some ([], r.advance)
    | some token => do
      let r ← if first then some r else if token == .flowEntry then some r.advance else none
      match r.next? with
      | some .flowSequenceEnd => some ([], r.advance)
      | some .key =>
        let (member, r) ← flowPair? steps (r.advance.count 2)
        let (items, r) ← flowItems? steps false r
        some (.mapping none [member] :: items, r)
      | _ =>
        let (item, r) ← node? steps false false r
        let (items, r) ← flowItems? steps false r
        some (item :: items, r)
    | none => none

/-- A key with its value as an item of a flow sequence, behind the token of the key. Where the key
is missing, the token in its place is passed over. -/
def flowPair? : Nat → NodeReader → Option ((Node × Node) × NodeReader)
  | 0, _ => none
  | steps + 1, r => do
    let (key, r) ←
      if r.isNext [.value, .flowEntry, .flowSequenceEnd] then some (.empty, r.advance.count 1)
      else node? steps false false r
    let (value, r) ←
      match r.next? with
      | some .value => nodeUnless? steps false false [.flowEntry, .flowSequenceEnd] r.advance
      | _ => some (.empty, r.count 1)
    some ((key, value), r)

/-- The members of a flow mapping, up to its end. -/
def flowMembers? : Nat → Bool → NodeReader → Option (List (Node × Node) × NodeReader)
  | 0, _, _ => none
  | steps + 1, first, r =>
    match r.next? with
    | some .flowMappingEnd => some ([], r.advance)
    | some token => do
      let r ← if first then some r else if token == .flowEntry then some r.advance else none
      match r.next? with
      | some .flowMappingEnd => some ([], r.advance)
      | some .key =>
        let (key, r) ← nodeUnless? steps false false [.value, .flowEntry, .flowMappingEnd] r.advance
        let (value, r) ←
          match r.next? with
          | some .value => nodeUnless? steps false false [.flowEntry, .flowMappingEnd] r.advance
          | _ => some (.empty, r.count 1)
        let (members, r) ← flowMembers? steps false r
        some ((key, value) :: members, r)
      | _ =>
        let (key, r) ← node? steps false false r
        let (members, r) ← flowMembers? steps false (r.count 1)
        some ((key, .empty) :: members, r)
    | none => none

end

/-- The expansions that every document knows, behind those that it declares. -/
def knownHandles : List (String × String) :=
  [("!", "!"), ("!!", "tag:yaml.org,2002:")]

/-- The directives in front of a document: at most one version, which has to be 1.1 or 1.2, and
the expansions of tag handles, none given twice. -/
def directives? : Bool → List (String × String) → List Token →
    Option (List (String × String) × List Token)
  | versionSeen, handles, .version major minor :: rest =>
    if versionSeen || major != 1 || (minor != 1 && minor != 2) then none
    else directives? true handles rest
  | versionSeen, handles, .tagHandle handle expansion :: rest =>
    if (handles.lookup handle).isSome then none
    else directives? versionSeen (handles ++ [(handle, expansion)]) rest
  | _, handles, tokens => some (handles ++ knownHandles, tokens)

/-- The node that each number stands for. -/
def anchored (r : NodeReader) : List (Nat × Node) :=
  r.places.filterMap fun (number, place) => (r.nodes.lookup place).map (number, ·)

/-- Whether nothing but the end of a document is left. -/
def atEnd (r : NodeReader) : Bool :=
  r.tokens.all (· == .documentEnd)

/-- The document that the tokens make. -/
def document? (r : NodeReader) : Option Document := do
  let (root, r) ←
    if r.isNext [.documentEnd] then some (.empty, r.count 1)
    else node? (8 * r.tokens.length + 8) true false r
  if r.atEnd then some { root, anchored := r.anchored, size := r.size } else none

end NodeReader

/-- The only document of a text: `some none` for a text without one, and nothing for a text that
is no YAML or has a second document. -/
def Document.ofText? (text : String) : Option (Option Document) := do
  let tokens ← Token.ofText? text
  let (handles, rest) ← NodeReader.directives? false [] tokens
  match tokens, rest with
  | [], _ => some none
  | _, .documentStart :: rest =>
    (({ tokens := rest, handles } : NodeReader).document?).map some
  | .version _ _ :: _, _ => none
  | .tagHandle _ _ :: _, _ => none
  | .documentEnd :: _, _ => none
  | _, rest => (({ tokens := rest, handles } : NodeReader).document?).map some

end DatasetAudit.Yaml
