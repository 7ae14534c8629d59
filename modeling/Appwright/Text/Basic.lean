/-!
# Cutting and joining text

Operations on texts that the rest of the library shares: trimming, splitting, replacing and
searching. The work is done on lists of characters, so that each operation is a structural
recursion; texts are packed and unpacked at the edge.
-/

namespace Appwright.Text

/-- White space of every script, the separators of records and fields included. -/
def isBlank (c : Char) : Bool :=
  let n := c.toNat
  (9 ≤ n && n ≤ 13) || (28 ≤ n && n ≤ 32) || n == 0x85 || n == 0xA0 || n == 0x1680 ||
    (0x2000 ≤ n && n ≤ 0x200A) || n == 0x2028 || n == 0x2029 || n == 0x202F || n == 0x205F ||
    n == 0x3000

def dropFront (p : Char → Bool) (s : String) : String :=
  String.ofList (s.toList.dropWhile p)

def dropLastWhile {α : Type} (p : α → Bool) (xs : List α) : List α :=
  (xs.reverse.dropWhile p).reverse

def dropBack (p : Char → Bool) (s : String) : String :=
  String.ofList (dropLastWhile p s.toList)

def dropEnds (p : Char → Bool) (s : String) : String :=
  String.ofList (dropLastWhile p (s.toList.dropWhile p))

def trim (s : String) : String :=
  dropEnds isBlank s

def trimBack (s : String) : String :=
  dropBack isBlank s

def isBlankText (s : String) : Bool :=
  s.toList.all isBlank

/-- What follows `head` in a list that starts with it. -/
def after? {α : Type} [BEq α] : List α → List α → Option (List α)
  | [], xs => some xs
  | _ :: _, [] => none
  | h :: hs, x :: xs => if h == x then after? hs xs else none

def startsWith (s head : String) : Bool :=
  head.toList.isPrefixOf s.toList

def endsWith (s tail : String) : Bool :=
  tail.toList.reverse.isPrefixOf s.toList.reverse

def afterText? (head s : String) : Option String :=
  (after? head.toList s.toList).map String.ofList

/-- The number of elements before the first occurrence of `needle`. -/
def indexOf? {α : Type} [BEq α] (needle : List α) : List α → Option Nat
  | [] => if needle.isEmpty then some 0 else none
  | x :: xs =>
    if needle.isPrefixOf (x :: xs) then some 0 else (indexOf? needle xs).map (· + 1)

def contains (s needle : String) : Bool :=
  (indexOf? needle.toList s.toList).isSome

def splitAtElem {α : Type} [BEq α] (sep : α) : List α → List (List α)
  | [] => [[]]
  | x :: xs =>
    if x == sep then [] :: splitAtElem sep xs
    else
      match splitAtElem sep xs with
      | [] => [[x]]
      | piece :: rest => (x :: piece) :: rest

def splitChar (sep : Char) (s : String) : List String :=
  (splitAtElem sep s.toList).map String.ofList

/-- The pieces between the occurrences of `sep`, found from the left; `skip` elements of an
occurrence are still to be passed over. -/
def splitFrom {α : Type} [BEq α] (sep : List α) : Nat → List α → List (List α)
  | _, [] => [[]]
  | skip + 1, _ :: xs => splitFrom sep skip xs
  | 0, x :: xs =>
    if sep.isPrefixOf (x :: xs) then [] :: splitFrom sep (sep.length - 1) xs
    else
      match splitFrom sep 0 xs with
      | [] => [[x]]
      | piece :: rest => (x :: piece) :: rest

def split (sep s : String) : List String :=
  (splitFrom sep.toList 0 s.toList).map String.ofList

/-- Every occurrence of `old`, found from the left, becomes `new`. -/
def replaceAll (old new s : String) : String :=
  String.intercalate new (split old s)

def cut? {α : Type} [BEq α] (sep xs : List α) : Option (List α × List α) :=
  (indexOf? sep xs).map fun i => (xs.take i, xs.drop (i + sep.length))

def cutText? (sep s : String) : Option (String × String) :=
  (cut? sep.toList s.toList).map fun (a, b) => (String.ofList a, String.ofList b)

def replaceFirst (old new s : String) : String :=
  match cutText? old s with
  | some (a, b) => a ++ new ++ b
  | none => s

/-- The characters that end a line. A carriage return takes a following line feed with it. -/
def isLineEnd (c : Char) : Bool :=
  let n := c.toNat
  (10 ≤ n && n ≤ 13) || (28 ≤ n && n ≤ 30) || n == 0x85 || n == 0x2028 || n == 0x2029

/-- The lines of a list of characters; `current` holds the line being read, backwards. -/
def linesFrom (current : List Char) : List Char → List (List Char)
  | [] => if current.isEmpty then [] else [current.reverse]
  | '\r' :: '\n' :: cs => current.reverse :: linesFrom [] cs
  | c :: cs => if isLineEnd c then current.reverse :: linesFrom [] cs else linesFrom (c :: current) cs

/-- The lines of a text, without their ends. A text that ends in a line end has no empty last
line. -/
def lines (s : String) : List String :=
  (linesFrom [] s.toList).map String.ofList

/-- The longest parts of a list whose elements all have a property; `current` holds the part being
read, backwards. -/
def runsFrom {α : Type} (p : α → Bool) (current : List α) : List α → List (List α)
  | [] => if current.isEmpty then [] else [current.reverse]
  | x :: xs =>
    if p x then runsFrom p (x :: current) xs
    else if current.isEmpty then runsFrom p [] xs
    else current.reverse :: runsFrom p [] xs

/-- The words of a text: its longest pieces without white space. -/
def words (s : String) : List String :=
  (runsFrom (fun c => !isBlank c) [] s.toList).map String.ofList

def times (n : Nat) (s : String) : String :=
  String.join (List.replicate n s)

/-- A plain identifier: an ASCII letter or underscore, then ASCII letters, digits and
underscores. -/
def isIdentChars : List Char → Bool
  | [] => false
  | c :: cs => (c.isAlpha || c == '_') && cs.all fun d => d.isAlphanum || d == '_'

/-- The check made of names: a plain identifier, a single line feed after it let pass. -/
def isIdentLine (s : String) : Bool :=
  isIdentChars s.toList ||
    (s.toList.getLast? == some '\n' && isIdentChars s.toList.dropLast)

def ofNat (n : Nat) : String :=
  String.ofList (Nat.toDigits 10 n)

def ofInt : Int → String
  | .ofNat n => ofNat n
  | .negSucc n => "-" ++ ofNat (n + 1)

/-- A number in base sixteen with at least `width` digits, the letters small. -/
def hex (width n : Nat) : String :=
  let digits := Nat.toDigits 16 n
  String.ofList (List.replicate (width - digits.length) '0' ++ digits)

/-- A number in base ten with at least `width` digits. -/
def padded (width n : Nat) : String :=
  let digits := Nat.toDigits 10 n
  String.ofList (List.replicate (width - digits.length) '0' ++ digits)

def hexValue? (c : Char) : Option Nat :=
  if '0' ≤ c ∧ c ≤ '9' then some (c.toNat - 48)
  else if 'a' ≤ c ∧ c ≤ 'f' then some (c.toNat - 87)
  else if 'A' ≤ c ∧ c ≤ 'F' then some (c.toNat - 55)
  else none

def decimalOf (ds : List Char) : Nat :=
  ds.foldl (fun n d => 10 * n + (d.toNat - 48)) 0

def compare (a b : String) : Ordering :=
  if a < b then .lt else if a == b then .eq else .gt

/-! ## Character classes

A class of characters is given by widths: how many code points from the first on lie outside it, how
many of the next lie inside, and so on in turn. Long tables of widths are written as texts.
-/

/-- The widths in the rest of a text, where `high` is what was read of the first of them. -/
def widthsFrom (high : Nat) : List Char → List Nat
  | [] => []
  | c :: cs =>
    if c.isUpper then (26 * high + (c.toNat - 'A'.toNat)) :: widthsFrom 0 cs
    else widthsFrom (26 * high + (c.toNat - 'a'.toNat)) cs

/-- The widths that a text gives, each in base 26: its last digit is a capital letter, the others are
small ones. -/
def widthsOf (text : String) : List Nat :=
  widthsFrom 0 text.toList

/-- Membership of a code point in a class that is given by widths, where `inside` tells on which side
of it the first ones lie. -/
def inWidthsFrom (inside : Bool) : List Nat → Nat → Bool
  | [], _ => false
  | width :: rest, n => if n < width then inside else inWidthsFrom (!inside) rest (n - width)

def inWidths (widths : List Nat) (n : Nat) : Bool :=
  inWidthsFrom false widths n

/-! ## Digits

Decimal digits of every script come in runs of ten, from zero to nine, so a table of the zeros
gives both the class and the values.
-/

def decimalZeros : Array Nat :=
  #[48, 1632, 1776, 1984, 2406, 2534, 2662, 2790, 2918, 3046,
   3174, 3302, 3430, 3558, 3664, 3792, 3872, 4160, 4240, 6112,
   6160, 6470, 6608, 6784, 6800, 6992, 7088, 7232, 7248, 42528,
   43216, 43264, 43472, 43504, 43600, 44016, 65296, 66720, 68912, 69734,
   69872, 69942, 70096, 70384, 70736, 70864, 71248, 71360, 71472, 71904,
   72016, 72784, 73040, 73120, 92768, 92864, 93008, 120782, 120792, 120802,
   120812, 120822, 123200, 123632, 125264, 130032]

/-- Digits that take no part in positional numerals. -/
def otherDigitWidths : List Nat :=
  widthsOf "gWCFBhbZJclCBcmVBDGGKblUJLJLJdLBKJBByGJBJBJdhvXEboMJsVJdhbXL"

def decimalValue? (c : Char) : Option Nat :=
  (decimalZeros.find? fun z => z ≤ c.toNat && c.toNat < z + 10).map fun z => c.toNat - z

def isDecimal (c : Char) : Bool :=
  (decimalValue? c).isSome

def isDigit (c : Char) : Bool :=
  isDecimal c || inWidths otherDigitWidths c.toNat

/-! ## Letters and numbers -/

/-- Letters and numbers beyond the first 128 code points. -/
def alphanumericWidths : List Nat :=
  widthsOf (
    "gOBHCBBDCBDBXBbFBrQEMOFHBBBeZFBCCEBBGBBDBBBUBdFBfJIgKBbMCBGbPcTbBEEbTbRVKECBdVBBPCHPCBQBBb" ++
    "EbDdLLBObRJCEBFWEBJBDBXZHLFYBGRbQcGcCDBSBHKEKBQEICCCWBHBBDEDBQBNCBDEMCGCBIGECCWBHBCBCBCbFE" ++
    "BBHKCDQJBDBWBHBCBFDBSBPCEKJBLICCCWBHBCBFDBbECBDEKBHLBBGDDBEDCBBBCDCDDDMWBVNSIBDBXBQDBbADCB" ++
    "CCEKIHBBEIBDBXBKBFDBbFCBCEKBCRJBDBbPCBQBFDBKETBGFSDYBJBBCHbFKRbWBCMHJKbNCBBBFBYBBBKBCJBCFB" ++
    "BJKCEbGBbFUMIBbKbBFeLbRULGGEEDBDCHDENMBBKGbMBBFBCbRBmVBECHBBBECbPBECbHBECHBBBECPBcFBECcPOU" ++
    "DQQdICGDxWCRBbAFcXDLHSNTOSONBDPcAbJBEBDKGKWKGdLHFCbIBBFcSKbFbNbOCFLbSEbAGLbLXJcBbRKGKNBdPb" ++
    "VRIDKbPbENcEbAbKbCKDbXCJHbRCDbPEBGBCDBFhKcMkSCGCbMCGCIBBBBBBBbFCcBBHBBDDBHDECGENFDBHeLCCGF" ++
    "LGNdXBEBCKBBDFGBBBBBBEBLCEFFEBBcGbbYcIdAWyGbEbrOiVGEDCJBCbMBBFBCcEHBQXJHBHBHBHBHBHBHBHdCBs" ++
    "BDZJHFCFEdIGDBdMBEFbRBdQDEKbGbWQbGKbEIBPbGKbNPmIjtOcMbguFcPbUCkJDbCUbVQbFCdCbNJCdZCcMFCBBB" ++
    "FYQBDBEBXNGKcAObYbCKYGDBBCBbMKXZbDHbVbCLGFBZBbPXDBIEKGXDBDbYBBDCCFCBBBYDCLHDMGCGCGJHBHBbRB" ++
    "OGeLNKGqnSMXEbXmnCoCCeCbMHMFFBBKBNBFBBBCBCBeEbHnZScMCcCbOMeMFBfFTKHbAGbALdLDGCGCGCDbJMBbAB" ++
    "TBCBPCObIeTMbTMcFRCjKbDDbXQbBEbKJbEFbMKbECbKEIBFbQgCCKGbKEbKEbOIcAMLBPBHBCBLBPBHBCcPlZJWKI" ++
    "YGBbQBJcRGCBBbSBCDBCXCbFCbMIJbWTBCFbHEbAcScEEUCbVPEBDBbDKJXbFBbGbGIBbCGFQcCKWCbBFbAXHdCcVc" ++
    "DbZNbZHbQMKlIbFBbQGCdAbOIWLEbBSbUbCUXMcBbAbEBCCBNbTbGZHKJbKPKEBCBIbJDBMbWOELLBBEULSBZdGHBB" ++
    "BEBPBKHbVRKLICCCWBHBCBFDBSBMFgCcBSEFKFDbEbWUCBBIKgKbVbPEbKbWUBLKbMbRNBHKcCbBVMEHhDbSeMdFMI" ++
    "CBCIBCBYPBBBOKcSICbNQBBBbCBKbOHBVBLbUTBScVkDJBbLRBPbDFbEeIHBCBbMVBJKGGBCBbGOBHKlYThHBPVbRb" ++
    "jMdYeHRhOdxKdTPbpFfzTwLmuBvXHbFBKGdBBKGbESbWQEMKBHBVFTbaMdJeBcXFBcONcMCBBbCjcAIbvQbQJnfREB" ++
    "HBCBlFbTDREIpGdkUeDFNDJHKilIUeEZfFdHBcTBCCBCCCEBMBBBHBcNBECIBHBbCBEBFBBDHBnCCZBZBbFBZBbFBZ" ++
    "BbFBZBbFBZBICbYcqYbFsNbTKHCKEBmJbESbSEKbwGHBEBCBPBhPCJbWcQHBEKbeLcHBDBEcYbTBPhMEBbBBCBBCBB" ++
    "KBEBBBBGBEBBBBBBDBCBBCBBBBBBBBBBCBBCEBHBEBEBBBKBRFDBFBRwINedFKbnQclfCbGgdTHiOCinQOlbLepJuW" ++
    "cfYhhZ")

def isAlphanumeric (c : Char) : Bool :=
  if c.toNat < 128 then c.isAlphanum else inWidths alphanumericWidths c.toNat

def isWord (c : Char) : Bool :=
  c == '_' || isAlphanumeric c

/-! ## Printable characters -/

/-- Printable characters beyond the first 128 code points. -/
def printableWidths : List Nat :=
  widthsOf (
    "gFMBbbMCGEHBBBUBpHBbMCbYCDBcDIbBEGRWBhKBbWCcHCdXOcHCbXCPBbCCBBLFbFJcWBgFBICCCWBHBBDECJCCCE" ++
    "IBECBFCZCDBGECCWBHBCBCBCCBBFECCDDBHEBBHRKDBJBDBWBHBCBFCKBDBDCBPECMHHBDBICCCWBHBCBFCJCCCDHD" ++
    "ECBFCSKCBGDDBEDCBBBCDCDDDMEFDDBECBGBOVFNBDBXBQCJBDBEHCBDCBCECKHWBDBXBKBFCJBDBEHCGCBECKBCNN" ++
    "BDBbZBDBGEQCbABDBSDYBJBBCHDBEGBBBIGKCDMcGEbDbLCBBBFBYBBBXCFBBBGCKCEbGcUBbKEbNBbKBPBNbLhQBB" ++
    "FBCoNBECHBBBECbPBECbHBECHBBBECPBcFBECcPCbGDbAGdICGCyQBbCDdLHWJYJUMNBDBCMdQCKGKGOBLGdLHbRFc" ++
    "SKbFBMEMEBDbQCFLbSEbAGLDcKCcNBbDCLGKGOCbFbXcZDbVBeMIcIDPDcIHbRCLIbRFuOCGCbMCGCIBBBBBBBbFCc" ++
    "BBPBOCGBTCDBJRYIbVRCCbBBNDbHPbHPfKEzNZLVcrSCbGBnLFbTBBFBCcEHCOYJHBHBHBHBHBHBHBHBeWbIbABdLM" ++
    "iGbAMFcLBdICdZFbRBdQBdGMbVBbriRDcDJnKUhCIhVFCBBBFYcHDKGcEIcSIMGeMLbEDdABLEbHBcDJOCKCdZYbCK" ++
    "GCGCGJHBHBcIEeWCKGqnSMXEbXmnCoCCeCbMHMFFbABFBBBCBCBeVQrDCcCHBbGbQGbZBTBEEFBfFEhIDGCGCGCDDH" ++
    "BHNCCMBbABTBCBPCObIeTFDEbTDdKBNDBbVbUfAbDDbXPbCEbKJbEFbRFbEBbLEObQgCCKGbKEbKEbOIcALMBPBHBC" ++
    "BLBPBHBCcPlZJWKIYGBbQBJcRGCBBbSBCDBCXBcUIJbWTBCFbHDbBFBcMcEEUCbYBCFIBDBbDCDEKHJHcMbGbNEMJc" ++
    "CDbDCbBFbAHEMHdCcVcDbZNbZHbUIKlIbFBbQBDCCdAbOIbQWbAbMbCUXJdAEbKJcKBFNZHKGcBBSIbNJdSBULSBbS" ++
    "cNHBBBEBPBLGcHFKGEBICCCWBHBCBFBKCCCDCBGBFHCHDFfJdOBFbEcUIKgKcCCbMbIcRLKGNTcGGKcCbBCPEXhDcI" ++
    "dWdFMICBCIBCBbEBCCMJKcSICbUCLbBcUIdFNcVkDJBbTBOKbDDbGCWBOcVHBCBbSDBBCBJIKGGBCBbLBCBGHKlYZh" ++
    "BBPbYNbjNdYeHBFLhOdxKdVNbpFfzTwLmuBvXHbFBKEdDBKGbECGKcSKKBHBVFTbaMdNdXcXEcFHRcMFLCOjcAIbvQ" ++
    "bQJnfREBHBCBlFbTDREIpGdkUeDFNDJHKCEgyYbUCXJeMcIjMKbNCcWIeIVcSfYUMdJJZfFdHBcTBCCBCCCEBMBBBH" ++
    "BcNBECIBHBbCBEBFBBDHBnCClGCbbAPFBPbqMbFiRHBRCHBCBFiFbTDOCKECmIbFRcGFBbwAHBEBCBPBhPCQbPcYEK" ++
    "ECbeFcQcYcJhMEBbBBCBBCBBKBEBBBBGBEBBBBBBDBCBBCBBBBBBBBBBCBBCEBHBEBEBBBKBRFDBFBRcACkKbSEdWM" ++
    "PCPBPBbLKgScEbDNbSEJHCOGfYblWFQDNDeMMdLHMEBPMEcEIKGbOIbECCdAnCMOCFDFDHJbDDLFGKKGIIHJfRBcDb" ++
    "LKbnQclfCbGgdTHiOCinQOlbLepJuWcfYhhZbotmRjG")

def isPrintable (c : Char) : Bool :=
  if c.toNat < 128 then 32 ≤ c.toNat && c.toNat < 127 else inWidths printableWidths c.toNat

/-! ## Quoted literals

Single quotes are used unless the text holds one and no double quote. Characters that cannot be
shown are written by their code point in two, four or eight hexadecimal digits.
-/

def quoteFor (cs : List Char) : Char :=
  if cs.contains '\'' && !cs.contains '"' then '"' else '\''

def quotedChar (quote c : Char) : List Char :=
  if c == quote || c == '\\' then ['\\', c]
  else if c == '\n' then ['\\', 'n']
  else if c == '\r' then ['\\', 'r']
  else if c == '\t' then ['\\', 't']
  else if isPrintable c then [c]
  else if c.toNat < 0x100 then '\\' :: 'x' :: (hex 2 c.toNat).toList
  else if c.toNat < 0x10000 then '\\' :: 'u' :: (hex 4 c.toNat).toList
  else '\\' :: 'U' :: (hex 8 c.toNat).toList

def quoted (s : String) : String :=
  let cs := s.toList
  let quote := quoteFor cs
  String.ofList (quote :: cs.flatMap (quotedChar quote) ++ [quote])

end Appwright.Text
