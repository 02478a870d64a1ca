import Warpine.Vfs.Types

/-! Conversion between host strings and the guest's codepages. The tables give
the upper halves of the DOS codepages; the Windows and double-byte codepages are
left to a library, which is a parameter. -/
namespace Warpine.Loader
open Warpine.Vfs

def cp437Upper : List Nat := [
  0x00C7, 0x00FC, 0x00E9, 0x00E2, 0x00E4, 0x00E0, 0x00E5, 0x00E7, 0x00EA, 0x00EB, 0x00E8, 0x00EF,
  0x00EE, 0x00EC, 0x00C4, 0x00C5, 0x00C9, 0x00E6, 0x00C6, 0x00F4, 0x00F6, 0x00F2, 0x00FB, 0x00F9,
  0x00FF, 0x00D6, 0x00DC, 0x00A2, 0x00A3, 0x00A5, 0x20A7, 0x0192, 0x00E1, 0x00ED, 0x00F3, 0x00FA,
  0x00F1, 0x00D1, 0x00AA, 0x00BA, 0x00BF, 0x2310, 0x00AC, 0x00BD, 0x00BC, 0x00A1, 0x00AB, 0x00BB,
  0x2591, 0x2592, 0x2593, 0x2502, 0x2524, 0x2561, 0x2562, 0x2556, 0x2555, 0x2563, 0x2551, 0x2557,
  0x255D, 0x255C, 0x255B, 0x2510, 0x2514, 0x2534, 0x252C, 0x251C, 0x2500, 0x253C, 0x255E, 0x255F,
  0x255A, 0x2554, 0x2569, 0x2566, 0x2560, 0x2550, 0x256C, 0x2567, 0x2568, 0x2564, 0x2565, 0x2559,
  0x2558, 0x2552, 0x2553, 0x256B, 0x256A, 0x2518, 0x250C, 0x2588, 0x2584, 0x258C, 0x2590, 0x2580,
  0x03B1, 0x00DF, 0x0393, 0x03C0, 0x03A3, 0x03C3, 0x00B5, 0x03C4, 0x03A6, 0x0398, 0x03A9, 0x03B4,
  0x221E, 0x03C6, 0x03B5, 0x2229, 0x2261, 0x00B1, 0x2265, 0x2264, 0x2320, 0x2321, 0x00F7, 0x2248,
  0x00B0, 0x2219, 0x00B7, 0x221A, 0x207F, 0x00B2, 0x25A0, 0x00A0]

def cp850Upper : List Nat := [
  0x00C7, 0x00FC, 0x00E9, 0x00E2, 0x00E4, 0x00E0, 0x00E5, 0x00E7, 0x00EA, 0x00EB, 0x00E8, 0x00EF,
  0x00EE, 0x00EC, 0x00C4, 0x00C5, 0x00C9, 0x00E6, 0x00C6, 0x00F4, 0x00F6, 0x00F2, 0x00FB, 0x00F9,
  0x00FF, 0x00D6, 0x00DC, 0x00F8, 0x00A3, 0x00D8, 0x00D7, 0x0192, 0x00E1, 0x00ED, 0x00F3, 0x00FA,
  0x00F1, 0x00D1, 0x00AA, 0x00BA, 0x00BF, 0x00AE, 0x00AC, 0x00BD, 0x00BC, 0x00A1, 0x00AB, 0x00BB,
  0x2591, 0x2592, 0x2593, 0x2502, 0x2524, 0x00C1, 0x00C2, 0x00C0, 0x00A9, 0x2563, 0x2551, 0x2557,
  0x255D, 0x00A2, 0x00A5, 0x2510, 0x2514, 0x2534, 0x252C, 0x251C, 0x2500, 0x253C, 0x00E3, 0x00C3,
  0x255A, 0x2554, 0x2569, 0x2566, 0x2560, 0x2550, 0x256C, 0x00A4, 0x00F0, 0x00D0, 0x00CA, 0x00CB,
  0x00C8, 0x0131, 0x00CD, 0x00CE, 0x00CF, 0x2518, 0x250C, 0x2588, 0x2584, 0x00A6, 0x00CC, 0x2580,
  0x00D3, 0x00DF, 0x00D4, 0x00D2, 0x00F5, 0x00D5, 0x00B5, 0x00FE, 0x00DE, 0x00DA, 0x00DB, 0x00D9,
  0x00FD, 0x00DD, 0x00AF, 0x00B4, 0x00AD, 0x00B1, 0x2017, 0x00BE, 0x00B6, 0x00A7, 0x00F7, 0x00B8,
  0x00B0, 0x00A8, 0x00B7, 0x00B9, 0x00B3, 0x00B2, 0x25A0, 0x00A0]

def cp852Upper : List Nat := [
  0x00C7, 0x00FC, 0x00E9, 0x00E2, 0x00E4, 0x016F, 0x0107, 0x00E7, 0x0142, 0x00EB, 0x0150, 0x0151,
  0x00EE, 0x0179, 0x00C4, 0x0106, 0x00C9, 0x0139, 0x013A, 0x00F4, 0x00F6, 0x013D, 0x013E, 0x015A,
  0x015B, 0x00D6, 0x00DC, 0x0164, 0x0165, 0x0141, 0x00D7, 0x010D, 0x00E1, 0x00ED, 0x00F3, 0x00FA,
  0x0104, 0x0105, 0x017D, 0x017E, 0x0118, 0x0119, 0x00AC, 0x017A, 0x010C, 0x015F, 0x00AB, 0x00BB,
  0x2591, 0x2592, 0x2593, 0x2502, 0x2524, 0x00C1, 0x00C2, 0x011A, 0x0160, 0x2563, 0x2551, 0x2557,
  0x255D, 0x017B, 0x017C, 0x2510, 0x2514, 0x2534, 0x252C, 0x251C, 0x2500, 0x253C, 0x0102, 0x0103,
  0x255A, 0x2554, 0x2569, 0x2566, 0x2560, 0x2550, 0x256C, 0x00A4, 0x0111, 0x0110, 0x010E, 0x00CB,
  0x010F, 0x0147, 0x00CD, 0x00CE, 0x011B, 0x2518, 0x250C, 0x2588, 0x2584, 0x0162, 0x016E, 0x2580,
  0x00D3, 0x00DF, 0x00D4, 0x0143, 0x0144, 0x0148, 0x0160, 0x016F, 0x00DE, 0x00DA, 0x00DB, 0x00D9,
  0x00FD, 0x00DD, 0x0163, 0x00B4, 0x00AD, 0x02DD, 0x02DB, 0x02C7, 0x02D8, 0x00A7, 0x00F7, 0x00B8,
  0x00B0, 0x00A8, 0x02D9, 0x0171, 0x0158, 0x0159, 0x25A0, 0x00A0]

/-- The codepages that the library converts. -/
def cpToEncoding (cp : Nat) : Bool :=
  [866, 932, 936, 949, 950, 1250, 1251, 1252, 1253, 1254, 1255, 1256, 1257, 1258].contains cp

/-- The library's conversions, by codepage. -/
structure EncodingRs where
  decode : Nat → List UInt8 → Path
  encode : Nat → Path → List UInt8

/-- A library that knows no codepage, where only the tables are used. -/
def noConversions : EncodingRs := ⟨fun _ _ => [], fun _ _ => []⟩

def dosUpper (cp : Nat) : Option (List Nat) :=
  if cp = 437 then some cp437Upper
  else if cp = 850 then some cp850Upper
  else if cp = 852 then some cp852Upper
  else none

def isAscii (c : Char) : Bool := c.toNat < 128

def questionMark : UInt8 := 0x3F

def decodeSingleByte (bytes : List UInt8) (upper : List Nat) : Path :=
  bytes.map fun byte =>
    if byte < 0x80 then Char.ofNat byte.toNat
    else Char.ofNat ((upper[byte.toNat - 0x80]?).getD 0)

def encodeSingleByte (text : Path) (upper : List Nat) : List UInt8 :=
  text.map fun c =>
    if isAscii c then UInt8.ofNat c.toNat
    else match upper.idxOf? c.toNat with
      | some idx => UInt8.ofNat idx + 0x80
      | none => questionMark

def cpDecode (rs : EncodingRs) (bytes : List UInt8) (cp : Nat) : Path :=
  match dosUpper cp with
  | some upper => decodeSingleByte bytes upper
  | none =>
      if cpToEncoding cp then rs.decode cp bytes
      else bytes.map fun byte => Char.ofNat byte.toNat

def cpEncode (rs : EncodingRs) (text : Path) (cp : Nat) : List UInt8 :=
  match dosUpper cp with
  | some upper => encodeSingleByte text upper
  | none =>
      if cpToEncoding cp then rs.encode cp text
      else text.map fun c => if isAscii c then UInt8.ofNat c.toNat else questionMark

def decodeDbcs (rs : EncodingRs) (lead trail : UInt8) (cp : Nat) : Char :=
  ((cpDecode rs [lead, trail] cp).head?).getD (Char.ofNat 0xFFFD)

/-- The first bytes of the pairs of a double-byte codepage. -/
def dbcsLeadRanges (cp : Nat) : List (UInt8 × UInt8) :=
  if cp = 932 then [(0x81, 0x9F), (0xE0, 0xFC)]
  else if cp = 936 ∨ cp = 949 ∨ cp = 950 then [(0x81, 0xFE)]
  else []

def isDbcsLeadByte (byte : UInt8) (cp : Nat) : Bool :=
  (dbcsLeadRanges cp).any fun range => decide (range.1 ≤ byte ∧ byte ≤ range.2)

end Warpine.Loader
