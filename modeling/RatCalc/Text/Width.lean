import RatCalc.Text.EmojiSequence

/-!
# Display width

How many columns a line of text takes on a display that gives every character its own cell: two for
wide characters and emoji, none for marks and characters that are not shown, one for all others,
control characters among them. Characters that are drawn as one in a ligature or shown as one emoji
are counted as one. A selector behind an emoji asks for a picture of two columns or for plain text
of one.

A text is looked at from its end, since what stands behind a character decides whether the
character starts, goes on with or ends something that is drawn as one.

## Main definitions

* `Text.charWidth`: the columns of a character on its own.
* `Text.advance`: the columns of a character before what stands behind it.
* `Text.width`: the columns of a text.
-/

namespace RatCalc

namespace Text

/-- The columns that a character takes on its own. The Khmer sign for "and so on" is drawn as three
characters. -/
def charWidth (c : Char) : Nat :=
  if c = '\u17D8' then 3
  else if zeroWidth.has c then 0
  else if doubleWidth.has c then 2
  else 1

/-- The two ways to show an emoji. -/
inductive Presentation where
  /-- As plain text. -/
  | text
  /-- As a picture. -/
  | picture
  deriving DecidableEq

/-- The presentation that a character asks for when it stands behind an emoji. -/
def Presentation.ofSelector? (c : Char) : Option Presentation :=
  if c = '\uFE0E' then some .text else if c = '\uFE0F' then some .picture else none

/-- Whether a character takes one column instead of two when it is asked to be shown as plain
text. The ideographs in squares among the emoji stay wide. -/
def hasNarrowText (c : Char) : Bool :=
  selectable.has c && pictures.has c && !(0x1F200 ≤ c.toNat && c.toNat < 0x1F300)

/-- What stands behind a character, as far as the character can go on with it. -/
inductive Behind where
  /-- Nothing to go on with. -/
  | nothing
  /-- The last part of a ligature. -/
  | ligature (part : Ligature)
  /-- The last part of an emoji. -/
  | emoji (part : EmojiSequence)
  deriving DecidableEq

namespace Behind

/-- What a character is behind the one before it when it goes on with nothing. -/
def of (c : Char) : Behind :=
  match Ligature.of c, EmojiSequence.of c with
  | some part, _ => ligature part
  | none, some part => emoji part
  | none, none => nothing

/-- How a character goes on with what stands behind it: the columns that it adds, and what the two
are for the character before them. None if it does not. -/
def join (c : Char) : Behind → Option (Int × Behind)
  | nothing => none
  | ligature part => (part.join c).map fun (columns, rest) => (columns, rest.elim nothing ligature)
  | emoji part => (part.join c).map fun (columns, rest) => (columns, emoji rest)

/-- Whether the last part of an emoji stands there. -/
def isEmoji : Behind → Bool
  | emoji _ => true
  | nothing | ligature _ => false

/-- What is left when a selector has not found its emoji: ligatures are not broken by selectors. -/
def withoutEmoji : Behind → Behind
  | ligature part => ligature part
  | nothing | emoji _ => nothing

/-- What is left before a selector. An emoji shown as a picture may be connected to a joiner or to
the ring of a keycap behind its selector. -/
def beforeSelector : Presentation → Behind → Behind
  | .picture, emoji .joined => emoji .joined
  | .picture, emoji .joinedKeycap => emoji .joinedKeycap
  | _, behind => behind.withoutEmoji

end Behind

/-- What stands behind a character: perhaps a selector, and what stands behind that. -/
structure Follower where
  /-- The presentation that the character is asked for. -/
  asked : Option Presentation
  /-- What the character can go on with. -/
  behind : Behind
  deriving DecidableEq

/-- Nothing that a character could go on with. -/
def Follower.nothing : Follower :=
  ⟨none, .nothing⟩

/-- The columns that a character adds when no selector has changed it, and what the two are for the
character before them. Characters up to the no-break space go on with nothing. -/
def advancePlain (c : Char) (behind : Behind) : Int × Follower :=
  if c ≤ '\u00A0' then (1, .nothing)
  else
    match Presentation.ofSelector? c, behind.join c with
    | some asked, _ => (0, ⟨some asked, behind.beforeSelector asked⟩)
    | none, some (columns, rest) => (columns, ⟨none, rest⟩)
    | none, none => (charWidth c, ⟨none, .of c⟩)

/-- The columns that a character adds before what stands behind it, and what the two are for the
character before them. A picture before a joiner is counted with the emoji behind the joiner. -/
def advance (c : Char) (follower : Follower) : Int × Follower :=
  match follower.asked with
  | some .picture =>
    if selectable.has c then
      (if follower.behind.isEmoji then 0 else 2, ⟨none, .emoji .picture⟩)
    else advancePlain c follower.behind.withoutEmoji
  | some .text =>
    if hasNarrowText c then (1, .nothing) else advancePlain c follower.behind
  | none => advancePlain c follower.behind

/-- The columns that a text takes, and what it is for a character before it. -/
def widthFollower (text : List Char) : Int × Follower :=
  text.foldr
    (fun c (columns, follower) =>
      let (more, before) := advance c follower
      (columns + more, before))
    (0, .nothing)

/-- The columns that a text takes. -/
def width (text : List Char) : Nat :=
  (widthFollower text).1.toNat

end Text

end RatCalc
