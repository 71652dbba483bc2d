import RatCalc.Text.EmojiTable
import RatCalc.Text.Ligature

/-!
# Emoji sequences

Several characters can be shown as one emoji of two columns: an emoji with a skin tone, two letters
that name a flag, a flag with the tags of a region, and emoji that a joiner connects. A text is
looked at from its end, as for ligatures: the sequence that stands behind a character is the last
part of an emoji, and the character may go on with it.

## Main definitions

* `Text.EmojiSequence`: the part of an emoji that stands behind a character.
* `Text.EmojiSequence.of`: the sequence that a character can be the last part of.
* `Text.EmojiSequence.join`: whether and how a character goes on with a sequence.
-/

namespace RatCalc

namespace Text

/-- Whether a character gives the emoji before it a skin tone. -/
def isSkinTone (c : Char) : Bool :=
  0x1F3FB ≤ c.toNat && c.toNat ≤ 0x1F3FF

/-- Whether a character is one of the letters two of which name a flag. -/
def isFlagLetter (c : Char) : Bool :=
  0x1F1E6 ≤ c.toNat && c.toNat ≤ 0x1F1FF

/-- The ring around a key that encloses the character before it. -/
def keycap : Char := '\u20E3'

/-- The flag that tags turn into the flag of a region. -/
def blackFlag : Char := Char.ofNat 0x1F3F4

/-- The character that ends the tags of a flag. -/
def tagEnd : Char := Char.ofNat 0xE007F

/-- Whether a character is a letter in the tags of a flag. -/
def isTagLetter (c : Char) : Bool :=
  0xE0061 ≤ c.toNat && c.toNat ≤ 0xE007A

/-- Whether a character is a digit in the tags of a flag. -/
def isTagDigit (c : Char) : Bool :=
  0xE0030 ≤ c.toNat && c.toNat ≤ 0xE0039

/-- The last part of an emoji. In the parts from `joined` on, a joiner and an emoji end it. -/
inductive EmojiSequence where
  /-- An emoji shown as a picture. -/
  | picture
  /-- A skin tone. -/
  | skinTone
  /-- One letter of a flag. -/
  | flagLetter
  /-- Two or more letters of flags. -/
  | flagLetters
  /-- Nothing before the joiner. -/
  | joined
  /-- The ring of a keycap. -/
  | joinedKeycap
  /-- One letter of a flag. -/
  | joinedFlagLetter
  /-- An even number of letters of flags, so that the first flag is whole. -/
  | joinedFlags
  /-- An odd number of letters of flags from three on. -/
  | joinedOddFlagLetters
  /-- The end of the tags of a flag with so many letters before it. -/
  | tagLetters (count : Nat)
  /-- The end of the tags of a flag, perhaps with letters before it, with so many digits before
  those. -/
  | tagDigits (count : Nat)
  deriving DecidableEq

namespace EmojiSequence

/-- The sequence that a character can be the last part of. -/
def of (c : Char) : Option EmojiSequence :=
  if isFlagLetter c then some flagLetter
  else if isSkinTone c then some skinTone
  else if pictures.has c then some picture
  else none

/-- How a character goes on with a sequence that has nothing before its joiner. -/
def joinJoined (c : Char) : Option (Int × EmojiSequence) :=
  if c = keycap then some (0, joinedKeycap)
  else if isFlagLetter c then some (1, joinedFlagLetter)
  else if isSkinTone c then some (0, skinTone)
  else if c = tagEnd then some (0, tagLetters 0)
  else if pictures.has c then some (0, picture)
  else none

/-- How a character goes on with the tags of a flag that end in letters. The tags of a region are
three to six letters, or three digits and up to four letters. -/
def joinTagLetters (c : Char) (count : Nat) : Option (Int × EmojiSequence) :=
  if isTagLetter c && count < 6 then some (0, tagLetters (count + 1))
  else if isTagDigit c && count ≤ 4 then some (0, tagDigits 1)
  else if c = blackFlag && 3 ≤ count then some (0, picture)
  else none

/-- How a character goes on with the tags of a flag whose digits have been met. -/
def joinTagDigits (c : Char) (count : Nat) : Option (Int × EmojiSequence) :=
  if isTagDigit c && count < 3 then some (0, tagDigits (count + 1))
  else if c = blackFlag && count = 3 then some (0, picture)
  else none

/-- How a character before a sequence goes on with it: the columns that it adds, and the sequence
that it makes. None if it does not. Letters of flags are paired from the first one on, which is the
last to be met, so a letter may give a whole flag to the emoji behind it or take it away. -/
def join (c : Char) : EmojiSequence → Option (Int × EmojiSequence)
  | picture => if c = joiner then some (0, joined) else none
  | skinTone =>
    if modifiable.has c then some (0, picture)
    else if c = joiner then some (0, joined)
    else none
  | flagLetter => if isFlagLetter c then some (1, flagLetters) else none
  | flagLetters =>
    if isFlagLetter c then some (1, flagLetters)
    else if c = joiner then some (0, joined)
    else none
  | joined => joinJoined c
  | joinedKeycap => none
  | joinedFlagLetter => if isFlagLetter c then some (-1, joinedFlags) else none
  | joinedFlags =>
    if isFlagLetter c then some (3, joinedOddFlagLetters)
    else if c = joiner then some (0, joined)
    else none
  | joinedOddFlagLetters =>
    if isFlagLetter c then some (-1, joinedFlags)
    else if c = joiner then some (0, joined)
    else none
  | tagLetters count => joinTagLetters c count
  | tagDigits count => joinTagDigits c count

end EmojiSequence

end Text

end RatCalc
