import Appwright.Text.Basic

/-!
# Letter case

Upper and lower case of whole texts. Most letters move by a fixed distance; runs of letters that
move alike are kept as one row `(first, last, step, distance)`. A few letters become several. The
Greek capital sigma has two small forms, and the one for the end of a word is chosen by what stands
around it.
-/

namespace Appwright.Text

/-- Runs in which every other character has its lower-case letter right after it. -/
def alternatingRuns : Array (Nat × Nat) :=
  #[(256, 302), (306, 310), (313, 327), (330, 374), (377, 381), (386, 388), (391, 391), (395, 395),
    (401, 401), (408, 408), (416, 420), (423, 423), (428, 428), (431, 431), (435, 437), (440, 440),
    (444, 444), (453, 453), (456, 456), (459, 475), (478, 494), (498, 500), (504, 542), (546, 562),
    (571, 571), (577, 577), (582, 590), (880, 882), (886, 886), (984, 1006), (1015, 1015),
    (1018, 1018), (1120, 1152), (1162, 1214), (1217, 1229), (1232, 1326), (7680, 7828),
    (7840, 7934), (8579, 8579), (11360, 11360), (11367, 11371), (11378, 11378), (11381, 11381),
    (11392, 11490), (11499, 11501), (11506, 11506), (42560, 42604), (42624, 42650), (42786, 42798),
    (42802, 42862), (42873, 42875), (42878, 42886), (42891, 42891), (42896, 42898), (42902, 42920),
    (42932, 42946), (42951, 42953), (42960, 42960), (42966, 42968), (42997, 42997)]

/-- Runs of characters with a lower-case letter at a fixed distance. -/
def shiftedRuns : Array (Nat × Nat × Int) :=
  #[(65, 90, 32), (192, 214, 32), (216, 222, 32), (376, 376, -121), (385, 385, 210),
    (390, 390, 206), (393, 394, 205), (398, 398, 79), (399, 399, 202), (400, 400, 203),
    (403, 403, 205), (404, 404, 207), (406, 406, 211), (407, 407, 209), (412, 412, 211),
    (413, 413, 213), (415, 415, 214), (422, 422, 218), (425, 425, 218), (430, 430, 218),
    (433, 434, 217), (439, 439, 219), (452, 452, 2), (455, 455, 2), (458, 458, 2), (497, 497, 2),
    (502, 502, -97), (503, 503, -56), (544, 544, -130), (570, 570, 10795), (573, 573, -163),
    (574, 574, 10792), (579, 579, -195), (580, 580, 69), (581, 581, 71), (895, 895, 116),
    (902, 902, 38), (904, 906, 37), (908, 908, 64), (910, 911, 63), (913, 929, 32), (931, 939, 32),
    (975, 975, 8), (1012, 1012, -60), (1017, 1017, -7), (1021, 1023, -130), (1024, 1039, 80),
    (1040, 1071, 32), (1216, 1216, 15), (1329, 1366, 48), (4256, 4293, 7264), (4295, 4295, 7264),
    (4301, 4301, 7264), (5024, 5103, 38864), (5104, 5109, 8), (7312, 7354, -3008),
    (7357, 7359, -3008), (7838, 7838, -7615), (7944, 7951, -8), (7960, 7965, -8), (7976, 7983, -8),
    (7992, 7999, -8), (8008, 8013, -8), (8025, 8025, -8), (8027, 8027, -8), (8029, 8029, -8),
    (8031, 8031, -8), (8040, 8047, -8), (8072, 8079, -8), (8088, 8095, -8), (8104, 8111, -8),
    (8120, 8121, -8), (8122, 8123, -74), (8124, 8124, -9), (8136, 8139, -86), (8140, 8140, -9),
    (8152, 8153, -8), (8154, 8155, -100), (8168, 8169, -8), (8170, 8171, -112), (8172, 8172, -7),
    (8184, 8185, -128), (8186, 8187, -126), (8188, 8188, -9), (8486, 8486, -7517),
    (8490, 8490, -8383), (8491, 8491, -8262), (8498, 8498, 28), (8544, 8559, 16), (9398, 9423, 26),
    (11264, 11311, 48), (11362, 11362, -10743), (11363, 11363, -3814), (11364, 11364, -10727),
    (11373, 11373, -10780), (11374, 11374, -10749), (11375, 11375, -10783), (11376, 11376, -10782),
    (11390, 11391, -10815), (42877, 42877, -35332), (42893, 42893, -42280), (42922, 42922, -42308),
    (42923, 42923, -42319), (42924, 42924, -42315), (42925, 42925, -42305), (42926, 42926, -42308),
    (42928, 42928, -42258), (42929, 42929, -42282), (42930, 42930, -42261), (42931, 42931, 928),
    (42948, 42948, -48), (42949, 42949, -42307), (42950, 42950, -35384), (65313, 65338, 32),
    (66560, 66599, 40), (66736, 66771, 40), (66928, 66938, 39), (66940, 66954, 39),
    (66956, 66962, 39), (66964, 66965, 39), (68736, 68786, 64), (71840, 71871, 32),
    (93760, 93791, 32), (125184, 125217, 34)]

def lowerRuns : Array (Nat × Nat × Nat × Int) :=
  shiftedRuns.map (fun (first, last, distance) => (first, last, 1, distance)) ++
    alternatingRuns.map fun (first, last) => (first, last, 2, (1 : Int))

def upperRuns : Array (Nat × Nat × Nat × Int) :=
  lowerRuns.map fun (first, last, step, distance) =>
    ((first + distance).toNat, (last + distance).toNat, step, -distance)

def expansionsOf (text : String) : Array (Nat × List Nat) :=
  (runsFrom (· != ' ') [] text.toList).toArray.filterMap fun
    | letter :: image => some (letter.toNat, image.map Char.toNat)
    | [] => none

/-- Characters whose upper case is several characters, or has another lower case. An iota below a
letter becomes a letter. -/
def upperExpansions : Array (Nat × List Nat) :=
  expansionsOf (
    "µΜ ßSS ıI ŉʼN ſS ǅǄ ǈǇ ǋǊ ǰJ̌ ǲǱ ͅΙ ΐΪ́ ΰΫ́ ςΣ ϐΒ ϑΘ ϕΦ ϖΠ ϰΚ ϱΡ ϵΕ ևԵՒ ᲀВ ᲁД ᲂО ᲃС " ++
    "ᲄТ ᲅТ ᲆЪ ᲇѢ ᲈꙊ ẖH̱ ẗT̈ ẘW̊ ẙY̊ ẚAʾ ẛṠ ὐΥ̓ ὒΥ̓̀ ὔΥ̓́ ὖΥ̓͂ ᾲᾺΙ ᾳΑΙ ᾴΆΙ ᾶΑ͂ ᾷΑ͂Ι ᾼΑΙ ιΙ " ++
    "ῂῊΙ ῃΗΙ ῄΉΙ ῆΗ͂ ῇΗ͂Ι ῌΗΙ ῒΪ̀ ΐΪ́ ῖΙ͂ ῗΪ͂ ῢΫ̀ ΰΫ́ ῤΡ̓ ῦΥ͂ ῧΫ͂ ῲῺΙ ῳΩΙ ῴΏΙ ῶΩ͂ " ++
    "ῷΩ͂Ι ῼΩΙ ﬀFF ﬁFI ﬂFL ﬃFFI ﬄFFL ﬅST ﬆST ﬓՄՆ ﬔՄԵ ﬕՄԻ ﬖՎՆ ﬗՄԽ") ++
    (Array.range 48).map fun i => (8064 + i, [#[7944, 7976, 8040].getD (i / 16) 0 + i % 8, 921])

def lowerExpansions : Array (Nat × List Nat) :=
  #[(304, [105, 775])]

def casedWidths : List Nat :=
  widthsOf (
    "cNbAGbAbVBKBEBFXBbFBhNBEEiABbKHCbEFdSBbQECCCEBBGBBDBBBUBdFBfJIgKBbMJbPefFbMBBFBCbRCDzWdICG" ++
    "dfUJHbRCDcMhKcMkSCGCbMCGCIBBBBBBBbFCcBBHBBDDBHDECGENFDBHeMBNBQNdXBEBCKBBDFGBBBBBBEBGEBCEFF" ++
    "EBRbGDCbfLcAcrUiVGEDCMbMBBFBbtwCbUSbEfCdYDEBcHFCBBBFbBCBDbfPbRBNHdCbeaIHMFbnTbAGbAbtTdCdSb" ++
    "KEbKeMLBPBHBCBLBPBHBCrJBCDBbQBJbuZbZNbZekZcMbgiQcMbmlKdHBcTBCCBCCCEBMBBBHBcNBECIBHBbCBEBFB" ++
    "BDHBnCCZBZBbFBZBbFBZBbFBZBbFBZBIcsYKBUdtHcQdaAbAGbAGbA")

/-- Characters that do not interrupt a word when its end is looked for. -/
def caseIgnorableWidths : List Nat :=
  widthsOf (
    "bNBGBLBbJBBBcTBEBBBEBCCtJhKECEBJCBBjRHhZBFBbXbTBBBCBCBBbSBLGKLBBbJBKVQBdXIBKBEbHBBBbEbBdNL" ++
    "cGLEBCBYYbRDbSBHCGIbPcGcDBBBEIEBDHKCNBPBcGBEEIBUCbABCCcFBECECCDDBbECDBLCcFBEFBCEBUCWGBBcGB" ++
    "CBBEIBHCLCbEBcJBMBbYBDBcDBBDFDBEHCLCbDBcGBCBGBFCUCbCCcFCEEIBUCbDBcUBHDBBdMBCHLJdUBCJJBBGcW" ++
    "CbBBBBBBcDOBFBCFLBbKJBdYEBGBCCCZCEDQENBCCGBPBdQBxKDbkKDbDCbECbECcMCBHIBCLDBFBbTFbZBcNCbIBe" ++
    "ODECJBGDiLCCBcGBBHBBBBCIGKCBbNBIbFbXEbWBBFBBFBbOJMCbGECCBDcEBBCDBBDcGICCcMGdEDBNBHEBGBDCbY" ++
    "cLNBbIdXrDBBDLDNDNDNCMFICKBCBCFbXFBKBBNBQNbZbHejRCeJDeVBPBdSbGbVBsBBbKEDFFBdPGdPDbqbUBbwCG" ++
    "kKBdUEBKBBbCEdCCObIdABXDdZDDCIBDBEBZCFBfVCbASNBbMIZLbUDbWBCECCRBVCcOGCCCCMBIBbJBLBbZBBDCCF" ++
    "CBBbBBOCFCBBdWFJDeRBCBEBbdzSBfRRwBQDBMQbIBCBgNBHBGBLBbJBBBbVBbTCcPBVDtTBiSBfTFbnPGBbQBJwKD" ++
    "BCFEbODEBgJCwBEoXCfXLbXEeTBcCPbPBCCKDbXECCCBEBKBbYDbKFBIcKBMCcAJKECBdRDCBBCGBgEBDIVCcFCDBb" ++
    "LHDFhNICDBBXBdGGBBECBCjEEGCBCbBCdHICBBCeCBBBCGBBdXDCEBFjZJBCjWCBBEBfOECCEBbGKbOGCEIBJGCDbU" ++
    "NBCpQHBGBBdEWCHBCBCeSGDBBCBHBBcUCDBBBnJCibBJusTFcHHJEbnVBcLRcMCBCygPEBHBCeuGCBEgyUbUCXuYDJ" ++
    "QCHbEEfSDcyDcDEbYIBOBWFBPcaIHBRCHBCBFkBOoEBcJEcfWHeFIebFFbsxxPBbEdSeYjG")

/-- The image of a code point under a table of runs. -/
def shiftByRuns (runs : Array (Nat × Nat × Nat × Int)) (n : Nat) : Nat :=
  match runs.find? fun r => r.1 ≤ n && n ≤ r.2.1 && (n - r.1) % r.2.2.1 == 0 with
  | some r => ((n : Int) + r.2.2.2).toNat
  | none => n

def mapCase (expansions : Array (Nat × List Nat)) (runs : Array (Nat × Nat × Nat × Int))
    (c : Char) : List Char :=
  match expansions.find? fun e => e.1 == c.toNat with
  | some e => e.2.map Char.ofNat
  | none => [Char.ofNat (shiftByRuns runs c.toNat)]

def upperChar (c : Char) : List Char :=
  if c.toNat < 128 then [c.toUpper] else mapCase upperExpansions upperRuns c

def lowerChar (c : Char) : List Char :=
  if c.toNat < 128 then [c.toLower] else mapCase lowerExpansions lowerRuns c

/-- The lower-case letter of a character; the first of several. -/
def foldChar (c : Char) : Char :=
  (lowerChar c).headD c

/-- Whether the first character that counts for word ends has a case. -/
def meetsCased : List Char → Bool
  | [] => false
  | c :: cs =>
    if inWidths caseIgnorableWidths c.toNat then meetsCased cs else inWidths casedWidths c.toNat

/-- Lower case of the rest of a text; `before` holds what precedes it, nearest character first. -/
def lowerFrom (before : List Char) : List Char → List Char
  | [] => []
  | c :: cs =>
    let here :=
      if c.toNat == 931 then
        if meetsCased before && !meetsCased cs then [Char.ofNat 962] else [Char.ofNat 963]
      else lowerChar c
    here ++ lowerFrom (c :: before) cs

def upper (s : String) : String :=
  String.ofList (s.toList.flatMap upperChar)

def lower (s : String) : String :=
  String.ofList (lowerFrom [] s.toList)

/-! ## Capital letters

Title case differs from upper case for some letters that are written as two.
-/

/-- The characters whose title case is not their upper case. -/
def titleExpansions : Array (Nat × List Nat) :=
  expansionsOf (
    "ßSs Ǆǅ ǅǅ ǆǅ Ǉǈ ǈǈ ǉǈ Ǌǋ ǋǋ ǌǋ Ǳǲ ǲǲ ǳǲ ևԵւ ჽჽ ჾჾ ჿჿ ᾲᾺͅ ᾳᾼ ᾴΆͅ ᾷᾼ͂ ᾼᾼ ῂῊͅ ῃῌ ῄΉͅ " ++
    "ῇῌ͂ ῌῌ ῲῺͅ ῳῼ ῴΏͅ ῷῼ͂ ῼῼ ﬀFf ﬁFi ﬂFl ﬃFfi ﬄFfl ﬅSt ﬆSt ﬓՄն ﬔՄե ﬕՄի ﬖՎն ﬗՄխ") ++
    (Array.range 43).map (fun i => (4304 + i, [4304 + i])) ++
    (Array.range 48).map fun i => (8064 + i, [8072 + i / 16 * 16 + i % 8])

def titleChar (c : Char) : List Char :=
  match titleExpansions.find? fun e => e.1 == c.toNat with
  | some e => e.2.map Char.ofNat
  | none => upperChar c

/-- A text with its first letter in title case and all others in lower case. -/
def capitalize (s : String) : String :=
  match s.toList with
  | [] => ""
  | c :: cs => String.ofList (titleChar c ++ lowerFrom [c] cs)

end Appwright.Text
