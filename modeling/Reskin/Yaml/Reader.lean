import Reskin.Yaml.Node
import Reskin.Yaml.Quotation

/-!
# Reading documents

A document is one node. Blocks are set apart by indentation, and brackets hold lists and maps
inside a line. Anchors, aliases and tags are not read.

## Main definitions

* `Yaml.flowNode?`: the nodes that stand inside brackets
* `Yaml.block?`: the nodes that are set apart by indentation
* `Yaml.read?`: the node of a text that holds one document
-/

namespace Reskin.Yaml

/-- The longest text of a key that stands on the line of its value. -/
def longestKey : Nat := 1024

/-- Whether a colon here ends the key that begins there: on the same line, and not too far. -/
def endsKey (start c : Cursor) : Bool :=
  start.line == c.line && start.rest.length - c.rest.length ≤ longestKey

/-- Whether the text goes on with the character. -/
def isAt (d : Char) (c : Cursor) : Bool := c.rest.head? == some d

mutual

/-- The node inside brackets that begins here. -/
def flowNode? : (fuel least : Nat) → Cursor → Option (Node × Cursor)
  | 0, _, _ => none
  | fuel + 1, least, c =>
    if c.atMarker then none
    else
      match c.rest with
      | '\x22' :: _ => (doubleQuoted? c).map fun (t, c) => (.scalar false t, c)
      | '\x27' :: _ => (singleQuoted? c).map fun (t, c) => (.scalar false t, c)
      | '[' :: _ => flowItems? fuel least [] c.next
      | '\x7b' :: _ => flowPairs? fuel least [] c.next
      | t =>
        if startsPlain true t then
          (plain? true least c).map fun (t, c) => (.scalar true t, c)
        else none

/-- The value after a colon inside brackets: nothing, if a comma or bracket follows. -/
def flowValue? : (fuel least : Nat) → Cursor → Option (Node × Cursor)
  | 0, _, _ => none
  | fuel + 1, least, c =>
    let d := c.skipInside
    if isAt ',' d || isAt ']' d || isAt '\x7d' d then some (.nothing, d) else flowNode? fuel least d

/-- The items of a list up to its bracket, after those read so far. -/
def flowItems? : (fuel least : Nat) → (read : List Node) → Cursor → Option (Node × Cursor)
  | 0, _, _, _ => none
  | fuel + 1, least, read, c =>
    let c := c.skipInside
    if isAt ']' c then some (.list read.reverse, c.next)
    else do
      let explicit := isAt '?' c
      let start := if explicit then c.next.skipInside else c
      let (item, c) ← flowNode? fuel least start
      let c := c.skipInside
      let (item, c) ←
        if isAt ':' c && (explicit || endsKey start c) then do
          let (value, c) ← flowValue? fuel least c.next
          pure (.map [(item, value)], c.skipInside)
        else pure (if explicit then .map [(item, .nothing)] else item, c)
      if isAt ',' c then flowItems? fuel least (item :: read) c.next
      else if isAt ']' c then some (.list (item :: read).reverse, c.next)
      else none

/-- The entries of a map up to its bracket, after those read so far. -/
def flowPairs? : (fuel least : Nat) → (read : List (Node × Node)) → Cursor → Option (Node × Cursor)
  | 0, _, _, _ => none
  | fuel + 1, least, read, c =>
    let c := c.skipInside
    if isAt '\x7d' c then some (.map read.reverse, c.next)
    else do
      let explicit := isAt '?' c
      let start := if explicit then c.next.skipInside else c
      let (key, c) ← if isAt ':' start then pure (.nothing, start) else flowNode? fuel least start
      let c := c.skipInside
      let (value, c) ←
        if isAt ':' c && (explicit || endsKey start c) then do
          let (value, c) ← flowValue? fuel least c.next
          pure (value, c.skipInside)
        else pure (.nothing, c)
      if isAt ',' c then flowPairs? fuel least ((key, value) :: read) c.next
      else if isAt '\x7d' c then some (.map ((key, value) :: read).reverse, c.next)
      else none

end

/-- The scalar or bracketed node that begins here, with further lines indented to column `least`. -/
def inline? (least : Nat) (c : Cursor) : Option (Node × Cursor) :=
  match c.rest with
  | '|' :: _ | '>' :: _ => (blockScalar? least c).map fun (t, c) => (.scalar false t, c)
  | '\x22' :: _ | '\x27' :: _ | '[' :: _ | '\x7b' :: _ =>
    flowNode? (2 * c.rest.length + 2) least c
  | t =>
    if startsPlain false t then (plain? false least c).map fun (t, c) => (.scalar true t, c)
    else none

/-- The key on the line here, and the place after its colon. -/
def key? (least : Nat) (c : Cursor) : Option (Node × Cursor) := do
  if isAt '|' c || isAt '>' c then none
  let (key, d) ← inline? least c
  let (d, _) := d.skip false false
  if d.atIndicator ':' && endsKey c d then some (key, d.next) else none

/-- What the content after a node does to the list or map whose lines begin in a column. -/
inductive Sequel where
  /-- The next entry begins. -/
  | entry (c : Cursor)
  /-- The list or map is over. -/
  | over

/-- What follows a node of a list or map; `none` if content is joined to the node, or is indented
further than its entries. -/
def sequel? (col : Nat) (c : Cursor) : Option Sequel :=
  let (d, fresh) := c.skip false false
  if d.atEnd || (fresh && d.atMarker) then some .over
  else if !fresh || col < d.col then none
  else if d.col = col then some (.entry d)
  else some .over

mutual

/-- **The node whose lines begin here**: a list, a map, a scalar or a bracketed node. -/
def block? : (fuel least : Nat) → Cursor → Option (Node × Cursor)
  | 0, _, _ => none
  | fuel + 1, least, c =>
    if c.atIndicator '-' then blockItems? fuel c.col [] c
    else if c.atIndicator '?' || (key? least c).isSome then blockPairs? fuel c.col [] c
    else inline? least c

/-- The node after the sign of an item, a key or a value, whose line the node may share. The items
of a list may stand in the column of the sign if it is not itself the sign of an item. -/
def afterSign? : (fuel col : Nat) → (listsAllowed : Bool) → Cursor → Option (Node × Cursor)
  | 0, _, _, _ => none
  | fuel + 1, col, listsAllowed, c =>
    let (d, _) := c.skip false true
    if d.atEnd || d.atMarker then some (.nothing, c)
    else if d.line = c.line || col < d.col then block? fuel (col + 1) d
    else if listsAllowed && d.col = col && d.atIndicator '-' then blockItems? fuel col [] d
    else some (.nothing, c)

/-- The items of a list in a column, after those read so far. -/
def blockItems? : (fuel col : Nat) → (read : List Node) → Cursor → Option (Node × Cursor)
  | 0, _, _, _ => none
  | fuel + 1, col, read, c => do
    let (item, c) ← afterSign? fuel col false c.next
    match ← sequel? col c with
    | .over => some (.list (item :: read).reverse, c)
    | .entry d =>
      if d.atIndicator '-' then blockItems? fuel col (item :: read) d
      else some (.list (item :: read).reverse, c)

/-- The value after the colon of a key: on its line, or indented further than the key, or a list
in its column. -/
def value? : (fuel col : Nat) → Cursor → Option (Node × Cursor)
  | 0, _, _ => none
  | fuel + 1, col, c =>
    let (d, fresh) := c.skip false false
    if d.atEnd || (fresh && d.atMarker) then some (.nothing, c)
    else if !fresh then inline? (col + 1) d
    else if col < d.col then block? fuel (col + 1) d
    else if d.col = col && d.atIndicator '-' then blockItems? fuel col [] d
    else some (.nothing, c)

/-- The entries of a map in a column, after those read so far. -/
def blockPairs? : (fuel col : Nat) → (read : List (Node × Node)) → Cursor → Option (Node × Cursor)
  | 0, _, _, _ => none
  | fuel + 1, col, read, c => do
    let (key, value, c) ←
      if c.atIndicator '?' then do
        let (key, c) ← afterSign? fuel col true c.next
        let (d, _) := c.skip false false
        if d.col = col && d.atIndicator ':' then do
          let (value, c) ← afterSign? fuel col true d.next
          pure (key, value, c)
        else pure (key, .nothing, c)
      else do
        let (key, c) ← key? (col + 1) c
        let (value, c) ← value? fuel col c
        pure (key, value, c)
    match ← sequel? col c with
    | .over => some (.map ((key, value) :: read).reverse, c)
    | .entry d => blockPairs? fuel col ((key, value) :: read) d

end

/-- The text with a line feed for every line ending. -/
def feeds : Text → Text
  | [] => []
  | '\r' :: '\n' :: t => '\n' :: feeds t
  | c :: t => (if c = '\r' ∨ c = '\u0085' then '\n' else c) :: feeds t

/-- Whether a character may stand in a document. -/
def isAllowed (c : Char) : Bool :=
  let n := c.toNat
  n == 9 || n == 10 || n == 13 || (0x20 ≤ n && n ≤ 0x7E) || n == 0x85 ||
    (0xA0 ≤ n && n != 0xFEFF && n != 0xFFFE && n != 0xFFFF)

/-- Whether nothing but marks for the end of the document follows. -/
def isOver : (fuel : Nat) → Cursor → Bool
  | 0, _ => false
  | fuel + 1, c =>
    let (d, fresh) := c.skip false false
    d.atEnd || (fresh || d.col == 0) && d.atMark ['.', '.', '.'] && isOver fuel (d.drop 3)

/-- Whether a line gives a version of the format that is read: 1.1 or 1.2. -/
def givesVersion (line : Text) : Bool :=
  match Text.dropStart? "%YAML".toList line with
  | none => false
  | some rest =>
    let (version, after) := (rest.dropWhile isSpace).span (!isSpace ·)
    rest.head?.any isSpace && (version == "1.1".toList || version == "1.2".toList) &&
      (after.dropWhile isSpace).head?.all (· == '#')

/-- The place after the directive on the line here, if there is one, at the mark of the
document. -/
def afterDirective? (c : Cursor) : Option Cursor :=
  if c.col == 0 && isAt '%' c then
    let line := c.rest.takeWhile (!isFeed ·)
    let (d, _) := (c.drop line.length).skip false true
    if givesVersion line && d.atMark ['-', '-', '-'] then some d else none
  else some c

/-- **The node of a text that holds one document**; `none` if it holds none, or more than one, or
is not well formed. -/
def read? (t : Text) : Option Node := do
  let t := (Text.dropStart? ['\uFEFF'] t).getD t
  if !t.all isAllowed then none
  let t := feeds t
  let fuel := 4 * t.length + 8
  let (first, _) := (Cursor.start t).skip false true
  let c ← afterDirective? first
  if c.atEnd then none
  let (node, c) ←
    if c.atMark ['-', '-', '-'] then do
      let (d, fresh) := (c.drop 3).skip false false
      if d.atEnd || (fresh && d.atMarker) then pure (.nothing, c.drop 3)
      else if fresh then block? fuel 0 d
      else inline? 0 d
    else if c.atMarker then none
    else block? fuel 0 c
  if isOver fuel c then some node else none

end Reskin.Yaml
