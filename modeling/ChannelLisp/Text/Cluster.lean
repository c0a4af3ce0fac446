import ChannelLisp.Text.Cluster.Table

/-!
Clusters: what a reader takes for one character, such as a letter with its accents, a flag, or
a family of pictographs. A boundary lies between two characters unless one of the rules of
extended grapheme clusters joins them; the rules look at the text before the boundary and at
the character after it.
-/

namespace ChannelLisp.Text.Cluster

inductive Class where
  | carriageReturn
  | lineFeed
  | control
  | extend
  /-- It extends, and joins two consonants into a conjunct. -/
  | linker
  /-- It extends, and keeps consonants from joining. -/
  | nonJoiner
  | joiner
  | spacing
  | prepend
  | regional
  | lead
  | vowel
  | tail
  /-- A Hangul syllable without a trailing consonant. -/
  | openSyllable
  /-- A Hangul syllable with a trailing consonant. -/
  | closedSyllable
  | pictograph
  | consonant
  | other
deriving DecidableEq, Repr

def within (ranges : List (Nat × Nat)) (n : Nat) : Bool :=
  ranges.any fun (lo, hi) => lo ≤ n && n ≤ hi

def Class.ofChar (c : Char) : Class :=
  let n := c.toNat
  if n = 0x0D then .carriageReturn
  else if n = 0x0A then .lineFeed
  else if within controlRanges n then .control
  else if n = 0x200C then .nonJoiner
  else if n = 0x200D then .joiner
  else if within linkerRanges n then .linker
  else if within extendRanges n then .extend
  else if within spacingRanges n then .spacing
  else if within prependRanges n then .prepend
  else if within [(0x1F1E6, 0x1F1FF)] n then .regional
  else if within leadRanges n then .lead
  else if within vowelRanges n then .vowel
  else if within tailRanges n then .tail
  else if within [(0xAC00, 0xD7A3)] n then
    if (n - 0xAC00) % 28 = 0 then .openSyllable else .closedSyllable
  else if within pictographRanges n then .pictograph
  else if within consonantRanges n then .consonant
  else .other

/-- Characters that stand apart on both sides. -/
def Class.isControl : Class → Bool
  | .carriageReturn | .lineFeed | .control => true
  | _ => false

def Class.isExtend : Class → Bool
  | .extend | .linker | .nonJoiner => true
  | _ => false

def Class.isConjunctSign : Class → Bool
  | .extend | .linker | .joiner => true
  | _ => false

def hangul : Class → Class → Bool
  | .lead, .lead | .lead, .vowel | .lead, .openSyllable | .lead, .closedSyllable => true
  | .openSyllable, .vowel | .openSyllable, .tail | .vowel, .vowel | .vowel, .tail => true
  | .closedSyllable, .tail | .tail, .tail => true
  | _, _ => false

/-- The text ends with a consonant and signs after it, one of them a linker. -/
def linked (before : List Class) : Bool :=
  (before.takeWhile Class.isConjunctSign).contains .linker
    && (before.dropWhile Class.isConjunctSign).head? == some .consonant

/-- The text ends with a pictograph, what extends it, and a joiner. -/
def joinedPictograph : List Class → Bool
  | .joiner :: before => (before.dropWhile Class.isExtend).head? == some .pictograph
  | _ => false

/-- The text ends with a regional indicator that has no partner. -/
def openFlag (before : List Class) : Bool :=
  (before.takeWhile (· == .regional)).length % 2 == 1

/-- No boundary lies between a text, given by its classes, newest first, and a character. -/
def joins (before : List Class) (b : Class) : Bool :=
  match before with
  | [] => false
  | a :: _ =>
    if a.isControl || b.isControl then a == .carriageReturn && b == .lineFeed
    else
      hangul a b || b.isExtend || b == .joiner || b == .spacing || a == .prepend
        || (b == .consonant && linked before)
        || (b == .pictograph && joinedPictograph before)
        || (b == .regional && openFlag before)

def collect (before : List Class) (current : List Char) : List Char → List (List Char)
  | [] => [current.reverse]
  | c :: cs =>
    let b := Class.ofChar c
    if joins before b then collect (b :: before) (c :: current) cs
    else current.reverse :: collect (b :: before) [c] cs

end ChannelLisp.Text.Cluster

namespace ChannelLisp.Text

open Cluster

def clusters : List Char → List (List Char)
  | [] => []
  | c :: cs => collect [.ofChar c] [c] cs

end ChannelLisp.Text
