import Reskin.Text.Blank
import Reskin.Text.Word

/-!
# Patterns

A pattern describes pieces of a text. A search asks whether some piece of the text fits, and so
only the places that a pattern can reach matter, not the way that leads there.

## Main definitions

* `CharSet`, `CharSet.has`: sets of characters
* `Edge`: places at the ends of words
* `Pattern`: the patterns
* `Pattern.reach`: the places where a piece that fits can end
* `Pattern.occursIn`: whether some piece of a text fits
-/

namespace Reskin

/-- A set of characters. -/
inductive CharSet where
  | only (c : Char)
  | range (lo hi : Char)
  | blank
  | decimal
  | word
  | union (a b : CharSet)
  | complement (a : CharSet)
  deriving DecidableEq, Repr

namespace CharSet

/-- The characters that are in both sets. -/
def inter (a b : CharSet) : CharSet := complement (union (complement a) (complement b))

/-- The characters of the first set that are not in the second. -/
def diff (a b : CharSet) : CharSet := inter a (complement b)

/-- The characters that are in one of the sets only. -/
def symmDiff (a b : CharSet) : CharSet := union (diff a b) (diff b a)

/-- The character at a distance, if both lie in the same row of letters. -/
def shifted (lo hi distance : Nat) (c : Char) : List Char :=
  if lo ≤ c.toNat ∧ c.toNat ≤ hi then [Char.ofNat (c.toNat + distance)]
  else if lo + distance ≤ c.toNat ∧ c.toNat ≤ hi + distance then [Char.ofNat (c.toNat - distance)]
  else []

/-- The same letter in the other case: ASCII, Latin-1, Greek and Cyrillic letters, and the two
letters outside ASCII whose small or capital form is in it. -/
def otherCase (c : Char) : List Char :=
  shifted 0x41 0x5A 32 c ++ shifted 0xC0 0xD6 32 c ++ shifted 0xD8 0xDE 32 c ++
    shifted 0x391 0x3A1 32 c ++ shifted 0x3A3 0x3A9 32 c ++ shifted 0x410 0x42F 32 c ++
    shifted 0x400 0x40F 80 c ++
    (if c = 'k' ∨ c = 'K' then ['\u212A'] else []) ++
    (if c = 's' ∨ c = 'S' then ['\u017F'] else []) ++
    (if c = '\u212A' then ['k', 'K'] else []) ++
    (if c = '\u017F' then ['s', 'S'] else [])

/-- Whether the character is in the set. -/
def has : CharSet → Char → Bool
  | only d, c => c == d
  | range lo hi, c => lo ≤ c && c ≤ hi
  | blank, c => isBlank c
  | decimal, c => isDecimal c
  | word, c => isWord c
  | union a b, c => a.has c || b.has c
  | complement a, c => !a.has c

/-- Whether the character or its form in the other case is in the set; the complement of a set holds
neither form of its members. -/
def hasEitherCase : CharSet → Char → Bool
  | union a b, c => a.hasEitherCase c || b.hasEitherCase c
  | complement a, c => !a.hasEitherCase c
  | s, c => s.has c || (otherCase c).any s.has

end CharSet

/-- A place in a text: how far in, the character before it, and the text after it. -/
structure Place where
  offset : Nat
  before : Option Char
  rest : Text
  deriving DecidableEq, Repr

/-- Places at the ends of words: what is told of the characters before and after one. -/
inductive Edge where
  /-- One of them only belongs to a word. -/
  | boundary
  /-- Both belong to a word, or neither does. -/
  | noBoundary
  /-- A word begins. -/
  | wordStart
  /-- A word ends. -/
  | wordEnd
  /-- No word reaches up to the place. -/
  | startHalf
  /-- No word goes on from the place. -/
  | endHalf
  deriving DecidableEq, Repr

/-- Whether the place is one, if a word character stands before it and after it or not. -/
def Edge.holds (before after : Bool) : Edge → Bool
  | boundary => before != after
  | noBoundary => before == after
  | wordStart => !before && after
  | wordEnd => before && !after
  | startHalf => !before
  | endHalf => !after

namespace Place

/-- The places of a text, from the given one on. -/
def allFrom (offset : Nat) (before : Option Char) : Text → List Place
  | [] => [⟨offset, before, []⟩]
  | c :: t => ⟨offset, before, c :: t⟩ :: allFrom (offset + 1) (some c) t

/-- Every place of a text. -/
def all (t : Text) : List Place := allFrom 0 none t

/-- Whether the place stands so to the words around it. -/
def isEdge (p : Place) (kind : Edge) : Bool :=
  kind.holds (p.before.any isWord) (p.rest.head?.any isWord)

/-- The places without repetition. -/
def distinct (ps : List Place) : List Place :=
  ps.foldl (fun acc p => if acc.any (·.offset == p.offset) then acc else p :: acc) []

end Place

/-- A description of pieces of a text. -/
inductive Pattern where
  /-- The empty piece. -/
  | empty
  /-- One character of a set, in either case if so marked. -/
  | one (anyCase : Bool) (set : CharSet)
  /-- The empty piece at the start of the text. -/
  | textStart
  /-- The empty piece at the end of the text. -/
  | textEnd
  /-- The empty piece at the start of a line. -/
  | lineStart
  /-- The empty piece at the end of a line. -/
  | lineEnd
  /-- The empty piece at a place that stands so to words. -/
  | edge (kind : Edge)
  /-- A piece of the first and then one of the second. -/
  | seq (p q : Pattern)
  /-- A piece of either. -/
  | alt (p q : Pattern)
  /-- Any number of pieces, one after the other. -/
  | many (p : Pattern)
  deriving DecidableEq, Repr

namespace Pattern

/-- The places that any number of steps lead to; `fuel` bounds the number of rounds. -/
def closure (step : List Place → List Place) : (fuel : Nat) → (seen new : List Place) → List Place
  | 0, seen, _ => seen
  | fuel + 1, seen, new =>
    match (step new).filter fun p => !seen.any (·.offset == p.offset) with
    | [] => seen
    | p :: ps => closure step fuel ((p :: ps) ++ seen) (p :: ps)

/-- **The places where a piece that fits can end**, if it begins at one of the given places. A
piece is never longer than the text, so as many rounds as there are places suffice for `many`. -/
def reach : Pattern → List Place → List Place
  | empty, ps => ps
  | one anyCase set, ps => ps.filterMap fun p =>
      match p.rest with
      | [] => none
      | c :: t =>
        if (if anyCase then set.hasEitherCase c else set.has c) then
          some ⟨p.offset + 1, some c, t⟩
        else none
  | textStart, ps => ps.filter (·.before.isNone)
  | textEnd, ps => ps.filter (·.rest.isEmpty)
  | lineStart, ps => ps.filter fun p => p.before.isNone || p.before == some '\n'
  | lineEnd, ps => ps.filter fun p => p.rest.isEmpty || p.rest.head? == some '\n'
  | edge kind, ps => ps.filter (·.isEdge kind)
  | seq p q, ps => q.reach (p.reach ps)
  | alt p q, ps => Place.distinct (p.reach ps ++ q.reach ps)
  | many p, ps =>
    let longest := ps.foldl (fun n place => max n place.rest.length) 0
    closure p.reach (longest + 1) ps ps

/-- Whether some piece of the text fits. -/
def occursIn (p : Pattern) (t : Text) : Bool := !(p.reach (Place.all t)).isEmpty

/-- At most one piece. -/
def optional (p : Pattern) : Pattern := alt p empty

/-- At least one piece. -/
def atLeastOne (p : Pattern) : Pattern := seq p (many p)

/-- So many pieces. -/
def times (p : Pattern) : Nat → Pattern
  | 0 => empty
  | n + 1 => seq p (times p n)

/-- At most so many pieces. -/
def upTo (p : Pattern) : Nat → Pattern
  | 0 => empty
  | n + 1 => optional (seq p (upTo p n))

end Pattern

end Reskin
