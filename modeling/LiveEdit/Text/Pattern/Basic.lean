/-!
Patterns for texts. Where a pattern can match in several ways one is preferred: the one that
starts first, and of those the one that the pattern's choices put first.
-/

namespace LiveEdit

/-- Which characters a place in a pattern admits. -/
inductive CharSet where
  | nothing
  | range (first last : Char)
  | union (s t : CharSet)
  | complement (s : CharSet)
  /-- Letters of the other case too. -/
  | anyCase (s : CharSet)
  deriving DecidableEq, Repr

namespace CharSet

def contains : CharSet → Char → Bool
  | nothing, _ => false
  | range first last, c => first ≤ c && c ≤ last
  | union s t, c => s.contains c || t.contains c
  | complement s, c => !s.contains c
  | anyCase s, c => s.contains c || s.contains c.toLower || s.contains c.toUpper

def single (c : Char) : CharSet := range c c

def ofRanges (ranges : List (Char × Char)) : CharSet :=
  ranges.foldl (fun s (first, last) => s.union (range first last)) nothing

def inter (s t : CharSet) : CharSet := (s.complement.union t.complement).complement

def diff (s t : CharSet) : CharSet := s.inter t.complement

theorem contains_inter (s t : CharSet) (c : Char) :
    (s.inter t).contains c = (s.contains c && t.contains c) := by
  simp [inter, contains]

theorem contains_diff (s t : CharSet) (c : Char) :
    (s.diff t).contains c = (s.contains c && !t.contains c) := by
  simp [diff, contains_inter, contains]

/-- The letters, digits and the underscore that make up words. -/
def word : CharSet := ofRanges [('0', '9'), ('A', 'Z'), ('_', '_'), ('a', 'z')]

end CharSet

/-- What may be asked of a place between two characters. -/
inductive Edge where
  | textStart
  | textEnd
  | lineStart
  | lineEnd
  | wordStart
  | wordEnd
  /-- The start or the end of a word. -/
  | word
  | noWord
  deriving DecidableEq, Repr

/-- Whether an edge is between two characters, of which one or both may be missing. -/
def Edge.isBetween (before after : Option Char) : Edge → Bool
  | textStart => before.isNone
  | textEnd => after.isNone
  | lineStart => before.all (· == '\n')
  | lineEnd => after.all (· == '\n')
  | wordStart => !before.any CharSet.word.contains && after.any CharSet.word.contains
  | wordEnd => before.any CharSet.word.contains && !after.any CharSet.word.contains
  | word => before.any CharSet.word.contains != after.any CharSet.word.contains
  | noWord => before.any CharSet.word.contains == after.any CharSet.word.contains

inductive Pattern where
  | empty
  | char (set : CharSet)
  | edge (e : Edge)
  | seq (p q : Pattern)
  /-- The first is preferred. -/
  | either (p q : Pattern)
  /-- Any number of times, preferably often if `greedy` and else preferably seldom. -/
  | many (greedy : Bool) (p : Pattern)
  deriving DecidableEq, Repr

/--
What may follow rounds of a match at the front of `cs` and of each end of `cs`, best first. A
round that takes nothing is the last.
-/
def endsOfRounds (round : List Char → List (List Char)) (greedy : Bool) :
    List Char → List (List Char × List (List Char))
  | [] => [([], [[]])]
  | c :: cs =>
    let shorter := endsOfRounds round greedy cs
    let further := (round (c :: cs)).flatMap fun rest => (shorter.lookup rest).getD [rest]
    (c :: cs, (if greedy then further ++ [c :: cs] else (c :: cs) :: further).eraseDups) :: shorter

namespace Pattern

/-- The character of a text in front of an end of it. -/
def charBefore? (text cs : List Char) : Option Char :=
  (text.take (text.length - cs.length)).getLast?

/-- What may follow a match at the front of `cs`, which is the end of `text`; best first. -/
def ends (text : List Char) : Pattern → List Char → List (List Char)
  | empty, cs => [cs]
  | char _, [] => []
  | char set, c :: cs => if set.contains c then [cs] else []
  | edge e, cs => if e.isBetween (charBefore? text cs) cs.head? then [cs] else []
  | seq p q, cs => ((p.ends text cs).flatMap (q.ends text)).eraseDups
  | either p q, cs => (p.ends text cs ++ q.ends text cs).eraseDups
  | many greedy p, cs => ((endsOfRounds (p.ends text) greedy cs).lookup cs).getD []

/-- What follows the preferred match in the end `cs` of a text, if there is any match. -/
def rest? (p : Pattern) (text : List Char) : List Char → Option (List Char)
  | [] => (p.ends text []).head?
  | c :: cs => ((p.ends text (c :: cs)).head?).or (p.rest? text cs)

/-- Whether the preferred match reaches the end of the text. -/
def admits (p : Pattern) (text : String) : Bool := p.rest? text.toList text.toList == some []

end Pattern

end LiveEdit
