import RatCalc.Text.WidthTable

/-!
# Ligatures

In some scripts several characters are drawn as one. A text is looked at from its end: what stands
behind a character may be the last part of a ligature, and the character may go on with it. The
columns that a part adds are counted so that all parts together come to the width of the ligature;
a part may therefore take back a column that a part behind it was given.

A joiner between the parts of a ligature is part of some ligatures and is skipped in all but the
Arabic one. Marks that are not shown never break a ligature.

## Main definitions

* `Text.Ligature`: the parts of a ligature that stand behind a character.
* `Text.Ligature.of`: the ligature that a character can be the last part of.
* `Text.Ligature.join`: whether and how a character goes on with a ligature.
-/

namespace RatCalc

namespace Text

/-- The joiner that connects the characters on its two sides. -/
def joiner : Char := '\u200D'

/-- The marks that combine with the character before them and are not shown. -/
def hiddenMarks : Ranges :=
  [(0x034F, 0x034F), (0x17B4, 0x17B5), (0x180B, 0x180D), (0x180F, 0x180F), (0xFE00, 0xFE0F),
   (0xE0100, 0xE01EF)]

/-- The characters without a column of their own that part the Arabic letters on their two
sides. -/
def separating : Ranges :=
  [(0x0605, 0x0605), (0x0890, 0x0891), (0x08E2, 0x08E2), (0x09BE, 0x09BE), (0x09D7, 0x09D7),
   (0x0B3E, 0x0B3E), (0x0B57, 0x0B57), (0x0BBE, 0x0BBE), (0x0BD7, 0x0BD7), (0x0CC0, 0x0CC0),
   (0x0CC2, 0x0CC2), (0x0CC7, 0x0CC8), (0x0CCA, 0x0CCB), (0x0CD5, 0x0CD6), (0x0D3E, 0x0D3E),
   (0x0D4E, 0x0D4E), (0x0D57, 0x0D57), (0x0DCF, 0x0DCF), (0x0DDF, 0x0DDF), (0x1160, 0x11FF),
   (0x180E, 0x180E), (0x1B35, 0x1B35), (0x1B3B, 0x1B3B), (0x1B3D, 0x1B3D), (0x1B43, 0x1B43),
   (0x200C, 0x200D), (0x2065, 0x2069), (0x302E, 0x302F), (0x3164, 0x3164), (0xA8FA, 0xA8FA),
   (0xD7B0, 0xD7C6), (0xD7CB, 0xD7FB), (0xFF9E, 0xFFA0), (0xFFF0, 0xFFF8), (0x111C2, 0x111C3),
   (0x1133E, 0x1133E), (0x11357, 0x11357), (0x114B0, 0x114B0), (0x114BD, 0x114BD),
   (0x115AF, 0x115AF), (0x11930, 0x11930), (0x1193F, 0x1193F), (0x11941, 0x11941),
   (0x11A3A, 0x11A3A), (0x11A84, 0x11A89), (0x11D46, 0x11D46), (0x11F02, 0x11F02),
   (0x1D165, 0x1D165), (0x1D16E, 0x1D172), (0xE0000, 0xE0000), (0xE0002, 0xE001F),
   (0xE0080, 0xE00FF), (0xE01F0, 0xE0FFF)]

/-- The forms of the Arabic letter alef. -/
def alefs : Ranges :=
  [(0x0622, 0x0623), (0x0625, 0x0625), (0x0627, 0x0627), (0x0671, 0x0673), (0x0675, 0x0675),
   (0x0773, 0x0774), (0x0870, 0x0882)]

/-- The forms of the Arabic letter lam. -/
def lams : Ranges :=
  [(0x0644, 0x0644), (0x06B5, 0x06B8), (0x076A, 0x076A), (0x08A6, 0x08A6), (0x08C7, 0x08C7)]

/-- The Khmer letters that have a form below the line. -/
def subscriptable : Ranges :=
  [(0x1780, 0x1782), (0x1784, 0x1787), (0x1789, 0x178C), (0x178E, 0x1793), (0x1795, 0x1798),
   (0x179B, 0x179D), (0x17A0, 0x17A0), (0x17A2, 0x17A2), (0x17A7, 0x17A7), (0x17AB, 0x17AC),
   (0x17AF, 0x17AF)]

/-- The Tifinagh letters that are drawn together with another one. -/
def tifinaghConsonants : Ranges :=
  [(0x2D31, 0x2D65), (0x2D6F, 0x2D6F)]

/-- The last parts of a ligature. The flag of a letter tells whether a joiner stands before it. -/
inductive Ligature where
  /-- An Arabic alef, which is drawn together with a lam. -/
  | alef
  /-- A Hebrew lamed, which is drawn together with an alef before the joiner. -/
  | lamed (joined : Bool)
  /-- A Khmer letter, which the sign before it moves below the line. -/
  | subscript
  /-- A Buginese ya, which is drawn together with the letter and the vowel before the joiner. -/
  | ya (joined : Bool)
  /-- A Buginese vowel, a joiner and a ya. -/
  | vowelYa
  /-- A Tifinagh consonant, which is drawn together with a consonant before a joiner. -/
  | consonant (joined : Bool)
  /-- A Tifinagh consonant behind the consonant joiner of that script. -/
  | attachedConsonant
  /-- A Lisu tone letter that is the second of a pair. -/
  | secondTone
  /-- The Old Turkic letter i, which is drawn together with the letter ec before the joiner. -/
  | orkhonI (joined : Bool)
  deriving DecidableEq

namespace Ligature

/-- The ligature that a character can be the last part of. -/
def of (c : Char) : Option Ligature :=
  if alefs.has c then some .alef
  else if c = '\u05DC' then some (.lamed false)
  else if subscriptable.has c then some .subscript
  else if c = '\u1A10' then some (.ya false)
  else if tifinaghConsonants.has c then some (.consonant false)
  else if c = '\uA4FC' || c = '\uA4FD' then some .secondTone
  else if c.toNat = 0x10C03 then some (.orkhonI false)
  else none

/-- The ligature with a joiner before it. -/
def behindJoiner : Ligature → Ligature
  | lamed _ => lamed true
  | ya _ => ya true
  | consonant _ => consonant true
  | orkhonI _ => orkhonI true
  | ligature => ligature

/-- How a letter or sign goes on with a ligature: the columns that it adds, and what is left to go
on with. None if it does not. -/
def complete (c : Char) : Ligature → Option (Int × Option Ligature)
  | alef => if lams.has c then some (0, none) else none
  | lamed true => if c = '\u05D0' then some (0, none) else none
  | subscript => if c = '\u17D2' then some (-1, none) else none
  | ya true => if c = '\u1A17' then some (0, some vowelYa) else none
  | vowelYa => if c = '\u1A15' then some (0, none) else none
  | consonant joined =>
    if c = '\u2D7F' then some (1, some attachedConsonant)
    else if joined && tifinaghConsonants.has c then some (0, none)
    else none
  | attachedConsonant => if tifinaghConsonants.has c then some (-1, none) else none
  | secondTone => if '\uA4F8' ≤ c && c ≤ '\uA4FB' then some (0, none) else none
  | orkhonI true => if c.toNat = 0x10C32 then some (0, none) else none
  | lamed false | ya false | orkhonI false => none

/-- How a character before a ligature goes on with it: the columns that it adds, and what is left
to go on with. None if it does not. -/
def join (c : Char) (ligature : Ligature) : Option (Int × Option Ligature) :=
  if ligature = alef then
    if zeroWidth.has c && !separating.has c then some (0, some alef) else complete c alef
  else if c = joiner then some (0, some ligature.behindJoiner)
  else if hiddenMarks.has c then some (0, some ligature)
  else complete c ligature

end Ligature

end Text

end RatCalc
