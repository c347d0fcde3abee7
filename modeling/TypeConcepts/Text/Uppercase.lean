import TypeConcepts.Text.CodeRange

/-!
The characters with the Unicode property `Uppercase`, in two tables: unbroken runs, and runs in
which capital and small letters alternate, where every second code point counts.
-/

namespace TypeConcepts.Text

def capitalRuns : List CodeRange :=
  [
    (0x0041, 0x005A), (0x00C0, 0x00D6), (0x00D8, 0x00DE), (0x0178, 0x0179), (0x0181, 0x0182),
    (0x0184, 0x0184), (0x0186, 0x0187), (0x0189, 0x018B), (0x018E, 0x0191), (0x0193, 0x0194),
    (0x0196, 0x0198), (0x019C, 0x019D), (0x019F, 0x01A0), (0x01A6, 0x01A7), (0x01A9, 0x01A9),
    (0x01AC, 0x01AC), (0x01AE, 0x01AF), (0x01B1, 0x01B3), (0x01B5, 0x01B5), (0x01B7, 0x01B8),
    (0x01BC, 0x01BC), (0x01C4, 0x01C4), (0x01C7, 0x01C7), (0x01CA, 0x01CA), (0x01F1, 0x01F1),
    (0x01F4, 0x01F4), (0x01F6, 0x01F8), (0x023A, 0x023B), (0x023D, 0x023E), (0x0241, 0x0241),
    (0x0243, 0x0246), (0x0376, 0x0376), (0x037F, 0x037F), (0x0386, 0x0386), (0x0388, 0x038A),
    (0x038C, 0x038C), (0x038E, 0x038F), (0x0391, 0x03A1), (0x03A3, 0x03AB), (0x03CF, 0x03CF),
    (0x03D2, 0x03D4), (0x03F4, 0x03F4), (0x03F7, 0x03F7), (0x03F9, 0x03FA), (0x03FD, 0x042F),
    (0x04C0, 0x04C1), (0x0531, 0x0556), (0x10A0, 0x10C5), (0x10C7, 0x10C7), (0x10CD, 0x10CD),
    (0x13A0, 0x13F5), (0x1C89, 0x1C89), (0x1C90, 0x1CBA), (0x1CBD, 0x1CBF), (0x1F08, 0x1F0F),
    (0x1F18, 0x1F1D), (0x1F28, 0x1F2F), (0x1F38, 0x1F3F), (0x1F48, 0x1F4D), (0x1F68, 0x1F6F),
    (0x1FB8, 0x1FBB), (0x1FC8, 0x1FCB), (0x1FD8, 0x1FDB), (0x1FE8, 0x1FEC), (0x1FF8, 0x1FFB),
    (0x2102, 0x2102), (0x2107, 0x2107), (0x210B, 0x210D), (0x2110, 0x2112), (0x2115, 0x2115),
    (0x2119, 0x211D), (0x212A, 0x212D), (0x2130, 0x2133), (0x213E, 0x213F), (0x2145, 0x2145),
    (0x2160, 0x216F), (0x2183, 0x2183), (0x24B6, 0x24CF), (0x2C00, 0x2C2F), (0x2C60, 0x2C60),
    (0x2C62, 0x2C64), (0x2C6D, 0x2C70), (0x2C72, 0x2C72), (0x2C75, 0x2C75), (0x2C7E, 0x2C80),
    (0x2CF2, 0x2CF2), (0xA77D, 0xA77E), (0xA7AA, 0xA7AE), (0xA7B0, 0xA7B4), (0xA7C4, 0xA7C7),
    (0xA7C9, 0xA7C9), (0xA7CB, 0xA7CC), (0xA7F5, 0xA7F5), (0xFF21, 0xFF3A), (0x10400, 0x10427),
    (0x104B0, 0x104D3), (0x10570, 0x1057A), (0x1057C, 0x1058A), (0x1058C, 0x10592),
    (0x10594, 0x10595), (0x10C80, 0x10CB2), (0x10D50, 0x10D65), (0x118A0, 0x118BF),
    (0x16E40, 0x16E5F), (0x16EA0, 0x16EB8), (0x1D400, 0x1D419), (0x1D434, 0x1D44D),
    (0x1D468, 0x1D481), (0x1D49C, 0x1D49C), (0x1D49E, 0x1D49F), (0x1D4A2, 0x1D4A2),
    (0x1D4A5, 0x1D4A6), (0x1D4A9, 0x1D4AC), (0x1D4AE, 0x1D4B5), (0x1D4D0, 0x1D4E9),
    (0x1D504, 0x1D505), (0x1D507, 0x1D50A), (0x1D50D, 0x1D514), (0x1D516, 0x1D51C),
    (0x1D538, 0x1D539), (0x1D53B, 0x1D53E), (0x1D540, 0x1D544), (0x1D546, 0x1D546),
    (0x1D54A, 0x1D550), (0x1D56C, 0x1D585), (0x1D5A0, 0x1D5B9), (0x1D5D4, 0x1D5ED),
    (0x1D608, 0x1D621), (0x1D63C, 0x1D655), (0x1D670, 0x1D689), (0x1D6A8, 0x1D6C0),
    (0x1D6E2, 0x1D6FA), (0x1D71C, 0x1D734), (0x1D756, 0x1D76E), (0x1D790, 0x1D7A8),
    (0x1D7CA, 0x1D7CA), (0x1E900, 0x1E921), (0x1F130, 0x1F149), (0x1F150, 0x1F169),
    (0x1F170, 0x1F189)]

def alternatingRuns : List CodeRange :=
  [
    (0x0100, 0x0136), (0x0139, 0x0147), (0x014A, 0x0176), (0x017B, 0x017D), (0x01A2, 0x01A4),
    (0x01CD, 0x01DB), (0x01DE, 0x01EE), (0x01FA, 0x0232), (0x0248, 0x024E), (0x0370, 0x0372),
    (0x03D8, 0x03EE), (0x0460, 0x0480), (0x048A, 0x04BE), (0x04C3, 0x04CD), (0x04D0, 0x052E),
    (0x1E00, 0x1E94), (0x1E9E, 0x1EFE), (0x1F59, 0x1F5F), (0x2124, 0x2128), (0x2C67, 0x2C6B),
    (0x2C82, 0x2CE2), (0x2CEB, 0x2CED), (0xA640, 0xA66C), (0xA680, 0xA69A), (0xA722, 0xA72E),
    (0xA732, 0xA76E), (0xA779, 0xA77B), (0xA780, 0xA786), (0xA78B, 0xA78D), (0xA790, 0xA792),
    (0xA796, 0xA7A8), (0xA7B6, 0xA7C2), (0xA7CE, 0xA7DC)]

/-- The Unicode property `Uppercase`: capital letters, and the capital Roman numerals and circled
letters that are no letters by category. Title case digraphs are not in it. -/
def isUppercase (c : Char) : Bool :=
  capitalRuns.any (·.has c.toNat) || alternatingRuns.any (·.hasEvery 2 c.toNat)

theorem isUppercase_of_ascii {c : Char} (low : 65 ≤ c.toNat) (high : c.toNat ≤ 90) :
    isUppercase c = true := by
  simp [isUppercase, capitalRuns, CodeRange.has, low, high]

end TypeConcepts.Text
