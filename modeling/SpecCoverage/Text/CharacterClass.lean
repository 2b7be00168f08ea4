/-!
# Character classes

The classes of Unicode that decide what a name is made of: `beginsName` and `continuesName` are the
properties `ID_Start` and `ID_Continue` with the two extra characters of programs, `isWordChar` is the
class of words in prose, and `isAlphanumeric` holds letters and numbers of any kind.

Below 128 the classes are spelled out.  Above, the tables list the code points that belong to some
class, in ascending order, as `(first, last, roles)`; `roles` adds 1 for beginning a name, 2 for
continuing one, 4 for words and 8 for letters and numbers.  Each table is named by where it starts.
-/

namespace SpecCoverage.Text

private def runs80 : List (Nat × Nat × Nat) :=
  [(0xAA, 0xAA, 15), (0xB2, 0xB3, 8), (0xB5, 0xB5, 15), (0xB7, 0xB7, 2), (0xB9, 0xB9, 8),
   (0xBA, 0xBA, 15), (0xBC, 0xBE, 8), (0xC0, 0xD6, 15), (0xD8, 0xF6, 15), (0xF8, 0x2C1, 15),
   (0x2C6, 0x2D1, 15), (0x2E0, 0x2E4, 15), (0x2EC, 0x2EC, 15), (0x2EE, 0x2EE, 15),
   (0x300, 0x344, 6), (0x345, 0x345, 14), (0x346, 0x36F, 6), (0x370, 0x374, 15),
   (0x376, 0x377, 15), (0x37A, 0x37D, 15), (0x37F, 0x37F, 15), (0x386, 0x386, 15),
   (0x387, 0x387, 2), (0x388, 0x38A, 15), (0x38C, 0x38C, 15), (0x38E, 0x3A1, 15),
   (0x3A3, 0x3F5, 15), (0x3F7, 0x481, 15), (0x483, 0x487, 6), (0x488, 0x489, 4),
   (0x48A, 0x52F, 15), (0x531, 0x556, 15), (0x559, 0x559, 15), (0x560, 0x588, 15),
   (0x591, 0x5AF, 6), (0x5B0, 0x5BD, 14), (0x5BF, 0x5BF, 14), (0x5C1, 0x5C2, 14),
   (0x5C4, 0x5C5, 14), (0x5C7, 0x5C7, 14), (0x5D0, 0x5EA, 15), (0x5EF, 0x5F2, 15),
   (0x610, 0x61A, 14), (0x620, 0x64A, 15), (0x64B, 0x657, 14), (0x658, 0x658, 6),
   (0x659, 0x669, 14), (0x66E, 0x66F, 15), (0x670, 0x670, 14), (0x671, 0x6D3, 15),
   (0x6D5, 0x6D5, 15), (0x6D6, 0x6DC, 14), (0x6DF, 0x6E0, 6), (0x6E1, 0x6E4, 14),
   (0x6E5, 0x6E6, 15), (0x6E7, 0x6E8, 14), (0x6EA, 0x6EC, 6), (0x6ED, 0x6ED, 14),
   (0x6EE, 0x6EF, 15), (0x6F0, 0x6F9, 14), (0x6FA, 0x6FC, 15), (0x6FF, 0x6FF, 15),
   (0x710, 0x710, 15), (0x711, 0x711, 14), (0x712, 0x72F, 15), (0x730, 0x73F, 14),
   (0x740, 0x74A, 6), (0x74D, 0x7A5, 15), (0x7A6, 0x7B0, 14), (0x7B1, 0x7B1, 15),
   (0x7C0, 0x7C9, 14), (0x7CA, 0x7EA, 15), (0x7EB, 0x7F3, 6), (0x7F4, 0x7F5, 15),
   (0x7FA, 0x7FA, 15), (0x7FD, 0x7FD, 6), (0x800, 0x815, 15), (0x816, 0x817, 14),
   (0x818, 0x819, 6), (0x81A, 0x81A, 15), (0x81B, 0x823, 14), (0x824, 0x824, 15),
   (0x825, 0x827, 14), (0x828, 0x828, 15), (0x829, 0x82C, 14), (0x82D, 0x82D, 6),
   (0x840, 0x858, 15), (0x859, 0x85B, 6), (0x860, 0x86A, 15), (0x870, 0x887, 15),
   (0x889, 0x88E, 15), (0x898, 0x89F, 6), (0x8A0, 0x8C9, 15), (0x8CA, 0x8D3, 6),
   (0x8D4, 0x8DF, 14), (0x8E0, 0x8E1, 6), (0x8E3, 0x8E9, 14), (0x8EA, 0x8EF, 6),
   (0x8F0, 0x903, 14), (0x904, 0x939, 15), (0x93A, 0x93B, 14), (0x93C, 0x93C, 6),
   (0x93D, 0x93D, 15), (0x93E, 0x94C, 14), (0x94D, 0x94D, 6), (0x94E, 0x94F, 14),
   (0x950, 0x950, 15), (0x951, 0x954, 6), (0x955, 0x957, 14), (0x958, 0x961, 15),
   (0x962, 0x963, 14), (0x966, 0x96F, 14), (0x971, 0x980, 15), (0x981, 0x983, 14),
   (0x985, 0x98C, 15), (0x98F, 0x990, 15), (0x993, 0x9A8, 15), (0x9AA, 0x9B0, 15),
   (0x9B2, 0x9B2, 15), (0x9B6, 0x9B9, 15), (0x9BC, 0x9BC, 6), (0x9BD, 0x9BD, 15),
   (0x9BE, 0x9C4, 14), (0x9C7, 0x9C8, 14), (0x9CB, 0x9CC, 14), (0x9CD, 0x9CD, 6),
   (0x9CE, 0x9CE, 15), (0x9D7, 0x9D7, 14), (0x9DC, 0x9DD, 15), (0x9DF, 0x9E1, 15),
   (0x9E2, 0x9E3, 14), (0x9E6, 0x9EF, 14), (0x9F0, 0x9F1, 15), (0x9F4, 0x9F9, 8),
   (0x9FC, 0x9FC, 15), (0x9FE, 0x9FE, 6), (0xA01, 0xA03, 14), (0xA05, 0xA0A, 15),
   (0xA0F, 0xA10, 15), (0xA13, 0xA28, 15), (0xA2A, 0xA30, 15), (0xA32, 0xA33, 15),
   (0xA35, 0xA36, 15), (0xA38, 0xA39, 15), (0xA3C, 0xA3C, 6), (0xA3E, 0xA42, 14),
   (0xA47, 0xA48, 14), (0xA4B, 0xA4C, 14), (0xA4D, 0xA4D, 6), (0xA51, 0xA51, 14),
   (0xA59, 0xA5C, 15), (0xA5E, 0xA5E, 15), (0xA66, 0xA71, 14), (0xA72, 0xA74, 15),
   (0xA75, 0xA75, 14), (0xA81, 0xA83, 14), (0xA85, 0xA8D, 15), (0xA8F, 0xA91, 15),
   (0xA93, 0xAA8, 15), (0xAAA, 0xAB0, 15), (0xAB2, 0xAB3, 15), (0xAB5, 0xAB9, 15),
   (0xABC, 0xABC, 6), (0xABD, 0xABD, 15), (0xABE, 0xAC5, 14), (0xAC7, 0xAC9, 14),
   (0xACB, 0xACC, 14), (0xACD, 0xACD, 6), (0xAD0, 0xAD0, 15), (0xAE0, 0xAE1, 15),
   (0xAE2, 0xAE3, 14), (0xAE6, 0xAEF, 14), (0xAF9, 0xAF9, 15), (0xAFA, 0xAFC, 14),
   (0xAFD, 0xAFF, 6)]

private def runsB00 : List (Nat × Nat × Nat) :=
  [(0xB01, 0xB03, 14), (0xB05, 0xB0C, 15), (0xB0F, 0xB10, 15), (0xB13, 0xB28, 15),
   (0xB2A, 0xB30, 15), (0xB32, 0xB33, 15), (0xB35, 0xB39, 15), (0xB3C, 0xB3C, 6),
   (0xB3D, 0xB3D, 15), (0xB3E, 0xB44, 14), (0xB47, 0xB48, 14), (0xB4B, 0xB4C, 14),
   (0xB4D, 0xB4D, 6), (0xB55, 0xB55, 6), (0xB56, 0xB57, 14), (0xB5C, 0xB5D, 15),
   (0xB5F, 0xB61, 15), (0xB62, 0xB63, 14), (0xB66, 0xB6F, 14), (0xB71, 0xB71, 15),
   (0xB72, 0xB77, 8), (0xB82, 0xB82, 14), (0xB83, 0xB83, 15), (0xB85, 0xB8A, 15),
   (0xB8E, 0xB90, 15), (0xB92, 0xB95, 15), (0xB99, 0xB9A, 15), (0xB9C, 0xB9C, 15),
   (0xB9E, 0xB9F, 15), (0xBA3, 0xBA4, 15), (0xBA8, 0xBAA, 15), (0xBAE, 0xBB9, 15),
   (0xBBE, 0xBC2, 14), (0xBC6, 0xBC8, 14), (0xBCA, 0xBCC, 14), (0xBCD, 0xBCD, 6),
   (0xBD0, 0xBD0, 15), (0xBD7, 0xBD7, 14), (0xBE6, 0xBEF, 14), (0xBF0, 0xBF2, 8),
   (0xC00, 0xC04, 14), (0xC05, 0xC0C, 15), (0xC0E, 0xC10, 15), (0xC12, 0xC28, 15),
   (0xC2A, 0xC39, 15), (0xC3C, 0xC3C, 6), (0xC3D, 0xC3D, 15), (0xC3E, 0xC44, 14),
   (0xC46, 0xC48, 14), (0xC4A, 0xC4C, 14), (0xC4D, 0xC4D, 6), (0xC55, 0xC56, 14),
   (0xC58, 0xC5A, 15), (0xC5D, 0xC5D, 15), (0xC60, 0xC61, 15), (0xC62, 0xC63, 14),
   (0xC66, 0xC6F, 14), (0xC78, 0xC7E, 8), (0xC80, 0xC80, 15), (0xC81, 0xC83, 14),
   (0xC85, 0xC8C, 15), (0xC8E, 0xC90, 15), (0xC92, 0xCA8, 15), (0xCAA, 0xCB3, 15),
   (0xCB5, 0xCB9, 15), (0xCBC, 0xCBC, 6), (0xCBD, 0xCBD, 15), (0xCBE, 0xCC4, 14),
   (0xCC6, 0xCC8, 14), (0xCCA, 0xCCC, 14), (0xCCD, 0xCCD, 6), (0xCD5, 0xCD6, 14),
   (0xCDD, 0xCDE, 15), (0xCE0, 0xCE1, 15), (0xCE2, 0xCE3, 14), (0xCE6, 0xCEF, 14),
   (0xCF1, 0xCF2, 15), (0xCF3, 0xCF3, 14), (0xD00, 0xD03, 14), (0xD04, 0xD0C, 15),
   (0xD0E, 0xD10, 15), (0xD12, 0xD3A, 15), (0xD3B, 0xD3C, 6), (0xD3D, 0xD3D, 15),
   (0xD3E, 0xD44, 14), (0xD46, 0xD48, 14), (0xD4A, 0xD4C, 14), (0xD4D, 0xD4D, 6),
   (0xD4E, 0xD4E, 15), (0xD54, 0xD56, 15), (0xD57, 0xD57, 14), (0xD58, 0xD5E, 8),
   (0xD5F, 0xD61, 15), (0xD62, 0xD63, 14), (0xD66, 0xD6F, 14), (0xD70, 0xD78, 8),
   (0xD7A, 0xD7F, 15), (0xD81, 0xD83, 14), (0xD85, 0xD96, 15), (0xD9A, 0xDB1, 15),
   (0xDB3, 0xDBB, 15), (0xDBD, 0xDBD, 15), (0xDC0, 0xDC6, 15), (0xDCA, 0xDCA, 6),
   (0xDCF, 0xDD4, 14), (0xDD6, 0xDD6, 14), (0xDD8, 0xDDF, 14), (0xDE6, 0xDEF, 14),
   (0xDF2, 0xDF3, 14), (0xE01, 0xE30, 15), (0xE31, 0xE31, 14), (0xE32, 0xE33, 15),
   (0xE34, 0xE3A, 14), (0xE40, 0xE46, 15), (0xE47, 0xE4C, 6), (0xE4D, 0xE4D, 14),
   (0xE4E, 0xE4E, 6), (0xE50, 0xE59, 14), (0xE81, 0xE82, 15), (0xE84, 0xE84, 15),
   (0xE86, 0xE8A, 15), (0xE8C, 0xEA3, 15), (0xEA5, 0xEA5, 15), (0xEA7, 0xEB0, 15),
   (0xEB1, 0xEB1, 14), (0xEB2, 0xEB3, 15), (0xEB4, 0xEB9, 14), (0xEBA, 0xEBA, 6),
   (0xEBB, 0xEBC, 14), (0xEBD, 0xEBD, 15), (0xEC0, 0xEC4, 15), (0xEC6, 0xEC6, 15),
   (0xEC8, 0xECC, 6), (0xECD, 0xECD, 14), (0xECE, 0xECE, 6), (0xED0, 0xED9, 14),
   (0xEDC, 0xEDF, 15), (0xF00, 0xF00, 15), (0xF18, 0xF19, 6), (0xF20, 0xF29, 14),
   (0xF2A, 0xF33, 8), (0xF35, 0xF35, 6), (0xF37, 0xF37, 6), (0xF39, 0xF39, 6), (0xF3E, 0xF3F, 6),
   (0xF40, 0xF47, 15), (0xF49, 0xF6C, 15), (0xF71, 0xF83, 14), (0xF84, 0xF84, 6),
   (0xF86, 0xF87, 6), (0xF88, 0xF8C, 15), (0xF8D, 0xF97, 14), (0xF99, 0xFBC, 14),
   (0xFC6, 0xFC6, 6), (0x1000, 0x102A, 15), (0x102B, 0x1036, 14), (0x1037, 0x1037, 6),
   (0x1038, 0x1038, 14), (0x1039, 0x103A, 6), (0x103B, 0x103E, 14), (0x103F, 0x103F, 15),
   (0x1040, 0x1049, 14), (0x1050, 0x1055, 15), (0x1056, 0x1059, 14), (0x105A, 0x105D, 15),
   (0x105E, 0x1060, 14), (0x1061, 0x1061, 15), (0x1062, 0x1064, 14), (0x1065, 0x1066, 15),
   (0x1067, 0x106D, 14), (0x106E, 0x1070, 15), (0x1071, 0x1074, 14), (0x1075, 0x1081, 15),
   (0x1082, 0x108D, 14), (0x108E, 0x108E, 15), (0x108F, 0x109D, 14), (0x10A0, 0x10C5, 15),
   (0x10C7, 0x10C7, 15), (0x10CD, 0x10CD, 15), (0x10D0, 0x10FA, 15), (0x10FC, 0x1248, 15)]

private def runs1249 : List (Nat × Nat × Nat) :=
  [(0x124A, 0x124D, 15), (0x1250, 0x1256, 15), (0x1258, 0x1258, 15), (0x125A, 0x125D, 15),
   (0x1260, 0x1288, 15), (0x128A, 0x128D, 15), (0x1290, 0x12B0, 15), (0x12B2, 0x12B5, 15),
   (0x12B8, 0x12BE, 15), (0x12C0, 0x12C0, 15), (0x12C2, 0x12C5, 15), (0x12C8, 0x12D6, 15),
   (0x12D8, 0x1310, 15), (0x1312, 0x1315, 15), (0x1318, 0x135A, 15), (0x135D, 0x135F, 6),
   (0x1369, 0x1371, 10), (0x1372, 0x137C, 8), (0x1380, 0x138F, 15), (0x13A0, 0x13F5, 15),
   (0x13F8, 0x13FD, 15), (0x1401, 0x166C, 15), (0x166F, 0x167F, 15), (0x1681, 0x169A, 15),
   (0x16A0, 0x16EA, 15), (0x16EE, 0x16F8, 15), (0x1700, 0x1711, 15), (0x1712, 0x1713, 14),
   (0x1714, 0x1715, 6), (0x171F, 0x1731, 15), (0x1732, 0x1733, 14), (0x1734, 0x1734, 6),
   (0x1740, 0x1751, 15), (0x1752, 0x1753, 14), (0x1760, 0x176C, 15), (0x176E, 0x1770, 15),
   (0x1772, 0x1773, 14), (0x1780, 0x17B3, 15), (0x17B4, 0x17B5, 6), (0x17B6, 0x17C8, 14),
   (0x17C9, 0x17D3, 6), (0x17D7, 0x17D7, 15), (0x17DC, 0x17DC, 15), (0x17DD, 0x17DD, 6),
   (0x17E0, 0x17E9, 14), (0x17F0, 0x17F9, 8), (0x180B, 0x180D, 6), (0x180F, 0x180F, 6),
   (0x1810, 0x1819, 14), (0x1820, 0x1878, 15), (0x1880, 0x18A8, 15), (0x18A9, 0x18A9, 14),
   (0x18AA, 0x18AA, 15), (0x18B0, 0x18F5, 15), (0x1900, 0x191E, 15), (0x1920, 0x192B, 14),
   (0x1930, 0x1938, 14), (0x1939, 0x193B, 6), (0x1946, 0x194F, 14), (0x1950, 0x196D, 15),
   (0x1970, 0x1974, 15), (0x1980, 0x19AB, 15), (0x19B0, 0x19C9, 15), (0x19D0, 0x19D9, 14),
   (0x19DA, 0x19DA, 10), (0x1A00, 0x1A16, 15), (0x1A17, 0x1A1B, 14), (0x1A20, 0x1A54, 15),
   (0x1A55, 0x1A5E, 14), (0x1A60, 0x1A60, 6), (0x1A61, 0x1A74, 14), (0x1A75, 0x1A7C, 6),
   (0x1A7F, 0x1A7F, 6), (0x1A80, 0x1A89, 14), (0x1A90, 0x1A99, 14), (0x1AA7, 0x1AA7, 15),
   (0x1AB0, 0x1ABD, 6), (0x1ABE, 0x1ABE, 4), (0x1ABF, 0x1AC0, 14), (0x1AC1, 0x1ACB, 6),
   (0x1ACC, 0x1ACE, 14), (0x1B00, 0x1B04, 14), (0x1B05, 0x1B33, 15), (0x1B34, 0x1B34, 6),
   (0x1B35, 0x1B43, 14), (0x1B44, 0x1B44, 6), (0x1B45, 0x1B4C, 15), (0x1B50, 0x1B59, 14),
   (0x1B6B, 0x1B73, 6), (0x1B80, 0x1B82, 14), (0x1B83, 0x1BA0, 15), (0x1BA1, 0x1BA9, 14),
   (0x1BAA, 0x1BAB, 6), (0x1BAC, 0x1BAD, 14), (0x1BAE, 0x1BAF, 15), (0x1BB0, 0x1BB9, 14),
   (0x1BBA, 0x1BE5, 15), (0x1BE6, 0x1BE6, 6), (0x1BE7, 0x1BF1, 14), (0x1BF2, 0x1BF3, 6),
   (0x1C00, 0x1C23, 15), (0x1C24, 0x1C36, 14), (0x1C37, 0x1C37, 6), (0x1C40, 0x1C49, 14),
   (0x1C4D, 0x1C4F, 15), (0x1C50, 0x1C59, 14), (0x1C5A, 0x1C7D, 15), (0x1C80, 0x1C88, 15),
   (0x1C90, 0x1CBA, 15), (0x1CBD, 0x1CBF, 15), (0x1CD0, 0x1CD2, 6), (0x1CD4, 0x1CE8, 6),
   (0x1CE9, 0x1CEC, 15), (0x1CED, 0x1CED, 6), (0x1CEE, 0x1CF3, 15), (0x1CF4, 0x1CF4, 6),
   (0x1CF5, 0x1CF6, 15), (0x1CF7, 0x1CF9, 6), (0x1CFA, 0x1CFA, 15), (0x1D00, 0x1DBF, 15),
   (0x1DC0, 0x1DE6, 6), (0x1DE7, 0x1DF4, 14), (0x1DF5, 0x1DFF, 6), (0x1E00, 0x1F15, 15),
   (0x1F18, 0x1F1D, 15), (0x1F20, 0x1F45, 15), (0x1F48, 0x1F4D, 15), (0x1F50, 0x1F57, 15),
   (0x1F59, 0x1F59, 15), (0x1F5B, 0x1F5B, 15), (0x1F5D, 0x1F5D, 15), (0x1F5F, 0x1F7D, 15),
   (0x1F80, 0x1FB4, 15), (0x1FB6, 0x1FBC, 15), (0x1FBE, 0x1FBE, 15), (0x1FC2, 0x1FC4, 15),
   (0x1FC6, 0x1FCC, 15), (0x1FD0, 0x1FD3, 15), (0x1FD6, 0x1FDB, 15), (0x1FE0, 0x1FEC, 15),
   (0x1FF2, 0x1FF4, 15), (0x1FF6, 0x1FFC, 15), (0x200C, 0x200D, 4), (0x203F, 0x2040, 6),
   (0x2054, 0x2054, 6), (0x2070, 0x2070, 8), (0x2071, 0x2071, 15), (0x2074, 0x2079, 8),
   (0x207F, 0x207F, 15), (0x2080, 0x2089, 8), (0x2090, 0x209C, 15), (0x20D0, 0x20DC, 6),
   (0x20DD, 0x20E0, 4), (0x20E1, 0x20E1, 6), (0x20E2, 0x20E4, 4), (0x20E5, 0x20F0, 6)]

private def runs2100 : List (Nat × Nat × Nat) :=
  [(0x2102, 0x2102, 15), (0x2107, 0x2107, 15), (0x210A, 0x2113, 15), (0x2115, 0x2115, 15),
   (0x2118, 0x2118, 3), (0x2119, 0x211D, 15), (0x2124, 0x2124, 15), (0x2126, 0x2126, 15),
   (0x2128, 0x2128, 15), (0x212A, 0x212D, 15), (0x212E, 0x212E, 3), (0x212F, 0x2139, 15),
   (0x213C, 0x213F, 15), (0x2145, 0x2149, 15), (0x214E, 0x214E, 15), (0x2150, 0x215F, 8),
   (0x2160, 0x2188, 15), (0x2189, 0x2189, 8), (0x2460, 0x249B, 8), (0x24B6, 0x24E9, 12),
   (0x24EA, 0x24FF, 8), (0x2776, 0x2793, 8), (0x2C00, 0x2CE4, 15), (0x2CEB, 0x2CEE, 15),
   (0x2CEF, 0x2CF1, 6), (0x2CF2, 0x2CF3, 15), (0x2CFD, 0x2CFD, 8), (0x2D00, 0x2D25, 15),
   (0x2D27, 0x2D27, 15), (0x2D2D, 0x2D2D, 15), (0x2D30, 0x2D67, 15), (0x2D6F, 0x2D6F, 15),
   (0x2D7F, 0x2D7F, 6), (0x2D80, 0x2D96, 15), (0x2DA0, 0x2DA6, 15), (0x2DA8, 0x2DAE, 15),
   (0x2DB0, 0x2DB6, 15), (0x2DB8, 0x2DBE, 15), (0x2DC0, 0x2DC6, 15), (0x2DC8, 0x2DCE, 15),
   (0x2DD0, 0x2DD6, 15), (0x2DD8, 0x2DDE, 15), (0x2DE0, 0x2DFF, 14), (0x2E2F, 0x2E2F, 12),
   (0x3005, 0x3007, 15), (0x3021, 0x3029, 15), (0x302A, 0x302F, 6), (0x3031, 0x3035, 15),
   (0x3038, 0x303C, 15), (0x3041, 0x3096, 15), (0x3099, 0x309A, 6), (0x309B, 0x309C, 3),
   (0x309D, 0x309F, 15), (0x30A1, 0x30FA, 15), (0x30FC, 0x30FF, 15), (0x3105, 0x312F, 15),
   (0x3131, 0x318E, 15), (0x3192, 0x3195, 8), (0x31A0, 0x31BF, 15), (0x31F0, 0x31FF, 15),
   (0x3220, 0x3229, 8), (0x3248, 0x324F, 8), (0x3251, 0x325F, 8), (0x3280, 0x3289, 8),
   (0x32B1, 0x32BF, 8), (0x3400, 0x4DBF, 15), (0x4E00, 0xA48C, 15)]

private def runsA48D : List (Nat × Nat × Nat) :=
  [(0xA4D0, 0xA4FD, 15), (0xA500, 0xA60C, 15), (0xA610, 0xA61F, 15), (0xA620, 0xA629, 14),
   (0xA62A, 0xA62B, 15), (0xA640, 0xA66E, 15), (0xA66F, 0xA66F, 6), (0xA670, 0xA672, 4),
   (0xA674, 0xA67B, 14), (0xA67C, 0xA67D, 6), (0xA67F, 0xA69D, 15), (0xA69E, 0xA69F, 14),
   (0xA6A0, 0xA6EF, 15), (0xA6F0, 0xA6F1, 6), (0xA717, 0xA71F, 15), (0xA722, 0xA788, 15),
   (0xA78B, 0xA7CA, 15), (0xA7D0, 0xA7D1, 15), (0xA7D3, 0xA7D3, 15), (0xA7D5, 0xA7D9, 15),
   (0xA7F2, 0xA801, 15), (0xA802, 0xA802, 14), (0xA803, 0xA805, 15), (0xA806, 0xA806, 6),
   (0xA807, 0xA80A, 15), (0xA80B, 0xA80B, 14), (0xA80C, 0xA822, 15), (0xA823, 0xA827, 14),
   (0xA82C, 0xA82C, 6), (0xA830, 0xA835, 8), (0xA840, 0xA873, 15), (0xA880, 0xA881, 14),
   (0xA882, 0xA8B3, 15), (0xA8B4, 0xA8C3, 14), (0xA8C4, 0xA8C4, 6), (0xA8C5, 0xA8C5, 14),
   (0xA8D0, 0xA8D9, 14), (0xA8E0, 0xA8F1, 6), (0xA8F2, 0xA8F7, 15), (0xA8FB, 0xA8FB, 15),
   (0xA8FD, 0xA8FE, 15), (0xA8FF, 0xA909, 14), (0xA90A, 0xA925, 15), (0xA926, 0xA92A, 14),
   (0xA92B, 0xA92D, 6), (0xA930, 0xA946, 15), (0xA947, 0xA952, 14), (0xA953, 0xA953, 6),
   (0xA960, 0xA97C, 15), (0xA980, 0xA983, 14), (0xA984, 0xA9B2, 15), (0xA9B3, 0xA9B3, 6),
   (0xA9B4, 0xA9BF, 14), (0xA9C0, 0xA9C0, 6), (0xA9CF, 0xA9CF, 15), (0xA9D0, 0xA9D9, 14),
   (0xA9E0, 0xA9E4, 15), (0xA9E5, 0xA9E5, 14), (0xA9E6, 0xA9EF, 15), (0xA9F0, 0xA9F9, 14),
   (0xA9FA, 0xA9FE, 15), (0xAA00, 0xAA28, 15), (0xAA29, 0xAA36, 14), (0xAA40, 0xAA42, 15),
   (0xAA43, 0xAA43, 14), (0xAA44, 0xAA4B, 15), (0xAA4C, 0xAA4D, 14), (0xAA50, 0xAA59, 14),
   (0xAA60, 0xAA76, 15), (0xAA7A, 0xAA7A, 15), (0xAA7B, 0xAA7D, 14), (0xAA7E, 0xAAAF, 15),
   (0xAAB0, 0xAAB0, 14), (0xAAB1, 0xAAB1, 15), (0xAAB2, 0xAAB4, 14), (0xAAB5, 0xAAB6, 15),
   (0xAAB7, 0xAAB8, 14), (0xAAB9, 0xAABD, 15), (0xAABE, 0xAABE, 14), (0xAABF, 0xAABF, 6),
   (0xAAC0, 0xAAC0, 15), (0xAAC1, 0xAAC1, 6), (0xAAC2, 0xAAC2, 15), (0xAADB, 0xAADD, 15),
   (0xAAE0, 0xAAEA, 15), (0xAAEB, 0xAAEF, 14), (0xAAF2, 0xAAF4, 15), (0xAAF5, 0xAAF5, 14),
   (0xAAF6, 0xAAF6, 6), (0xAB01, 0xAB06, 15), (0xAB09, 0xAB0E, 15), (0xAB11, 0xAB16, 15),
   (0xAB20, 0xAB26, 15), (0xAB28, 0xAB2E, 15), (0xAB30, 0xAB5A, 15), (0xAB5C, 0xAB69, 15),
   (0xAB70, 0xABE2, 15), (0xABE3, 0xABEA, 14), (0xABEC, 0xABED, 6), (0xABF0, 0xABF9, 14),
   (0xAC00, 0xD7A3, 15), (0xD7B0, 0xD7C6, 15), (0xD7CB, 0xD7FB, 15), (0xF900, 0xFA6D, 15),
   (0xFA70, 0xFAD9, 15), (0xFB00, 0xFB06, 15), (0xFB13, 0xFB17, 15), (0xFB1D, 0xFB1D, 15),
   (0xFB1E, 0xFB1E, 14), (0xFB1F, 0xFB28, 15), (0xFB2A, 0xFB36, 15), (0xFB38, 0xFB3C, 15),
   (0xFB3E, 0xFB3E, 15), (0xFB40, 0xFB41, 15), (0xFB43, 0xFB44, 15), (0xFB46, 0xFBB1, 15),
   (0xFBD3, 0xFD3D, 15), (0xFD50, 0xFD8F, 15), (0xFD92, 0xFDC7, 15), (0xFDF0, 0xFDFB, 15),
   (0xFE00, 0xFE0F, 6), (0xFE20, 0xFE2F, 6), (0xFE33, 0xFE34, 6), (0xFE4D, 0xFE4F, 6),
   (0xFE70, 0xFE74, 15), (0xFE76, 0xFEFC, 15), (0xFF10, 0xFF19, 14), (0xFF21, 0xFF3A, 15),
   (0xFF3F, 0xFF3F, 6), (0xFF41, 0xFF5A, 15), (0xFF66, 0xFFBE, 15), (0xFFC2, 0xFFC7, 15),
   (0xFFCA, 0xFFCF, 15), (0xFFD2, 0xFFD7, 15), (0xFFDA, 0xFFDC, 15)]

private def runs10000 : List (Nat × Nat × Nat) :=
  [(0x10000, 0x1000B, 15), (0x1000D, 0x10026, 15), (0x10028, 0x1003A, 15), (0x1003C, 0x1003D, 15),
   (0x1003F, 0x1004D, 15), (0x10050, 0x1005D, 15), (0x10080, 0x100FA, 15), (0x10107, 0x10133, 8),
   (0x10140, 0x10174, 15), (0x10175, 0x10178, 8), (0x1018A, 0x1018B, 8), (0x101FD, 0x101FD, 6),
   (0x10280, 0x1029C, 15), (0x102A0, 0x102D0, 15), (0x102E0, 0x102E0, 6), (0x102E1, 0x102FB, 8),
   (0x10300, 0x1031F, 15), (0x10320, 0x10323, 8), (0x1032D, 0x1034A, 15), (0x10350, 0x10375, 15),
   (0x10376, 0x1037A, 14), (0x10380, 0x1039D, 15), (0x103A0, 0x103C3, 15), (0x103C8, 0x103CF, 15),
   (0x103D1, 0x103D5, 15), (0x10400, 0x1049D, 15), (0x104A0, 0x104A9, 14), (0x104B0, 0x104D3, 15),
   (0x104D8, 0x104FB, 15), (0x10500, 0x10527, 15), (0x10530, 0x10563, 15), (0x10570, 0x1057A, 15),
   (0x1057C, 0x1058A, 15), (0x1058C, 0x10592, 15), (0x10594, 0x10595, 15), (0x10597, 0x105A1, 15),
   (0x105A3, 0x105B1, 15), (0x105B3, 0x105B9, 15), (0x105BB, 0x105BC, 15), (0x10600, 0x10736, 15),
   (0x10740, 0x10755, 15), (0x10760, 0x10767, 15), (0x10780, 0x10785, 15), (0x10787, 0x107B0, 15),
   (0x107B2, 0x107BA, 15), (0x10800, 0x10805, 15), (0x10808, 0x10808, 15), (0x1080A, 0x10835, 15),
   (0x10837, 0x10838, 15), (0x1083C, 0x1083C, 15), (0x1083F, 0x10855, 15), (0x10858, 0x1085F, 8),
   (0x10860, 0x10876, 15), (0x10879, 0x1087F, 8), (0x10880, 0x1089E, 15), (0x108A7, 0x108AF, 8),
   (0x108E0, 0x108F2, 15), (0x108F4, 0x108F5, 15), (0x108FB, 0x108FF, 8), (0x10900, 0x10915, 15),
   (0x10916, 0x1091B, 8), (0x10920, 0x10939, 15), (0x10980, 0x109B7, 15), (0x109BC, 0x109BD, 8),
   (0x109BE, 0x109BF, 15), (0x109C0, 0x109CF, 8), (0x109D2, 0x109FF, 8), (0x10A00, 0x10A00, 15),
   (0x10A01, 0x10A03, 14), (0x10A05, 0x10A06, 14), (0x10A0C, 0x10A0F, 14), (0x10A10, 0x10A13, 15),
   (0x10A15, 0x10A17, 15), (0x10A19, 0x10A35, 15), (0x10A38, 0x10A3A, 6), (0x10A3F, 0x10A3F, 6),
   (0x10A40, 0x10A48, 8), (0x10A60, 0x10A7C, 15), (0x10A7D, 0x10A7E, 8), (0x10A80, 0x10A9C, 15),
   (0x10A9D, 0x10A9F, 8), (0x10AC0, 0x10AC7, 15), (0x10AC9, 0x10AE4, 15), (0x10AE5, 0x10AE6, 6),
   (0x10AEB, 0x10AEF, 8), (0x10B00, 0x10B35, 15), (0x10B40, 0x10B55, 15), (0x10B58, 0x10B5F, 8),
   (0x10B60, 0x10B72, 15), (0x10B78, 0x10B7F, 8), (0x10B80, 0x10B91, 15), (0x10BA9, 0x10BAF, 8),
   (0x10C00, 0x10C48, 15), (0x10C80, 0x10CB2, 15), (0x10CC0, 0x10CF2, 15), (0x10CFA, 0x10CFF, 8),
   (0x10D00, 0x10D23, 15), (0x10D24, 0x10D27, 14), (0x10D30, 0x10D39, 14), (0x10E60, 0x10E7E, 8),
   (0x10E80, 0x10EA9, 15), (0x10EAB, 0x10EAC, 14), (0x10EB0, 0x10EB1, 15), (0x10EFD, 0x10EFF, 6),
   (0x10F00, 0x10F1C, 15), (0x10F1D, 0x10F26, 8), (0x10F27, 0x10F27, 15), (0x10F30, 0x10F45, 15),
   (0x10F46, 0x10F50, 6), (0x10F51, 0x10F54, 8), (0x10F70, 0x10F81, 15), (0x10F82, 0x10F85, 6),
   (0x10FB0, 0x10FC4, 15), (0x10FC5, 0x10FCB, 8), (0x10FE0, 0x10FF6, 15), (0x11000, 0x11002, 14),
   (0x11003, 0x11037, 15), (0x11038, 0x11045, 14), (0x11046, 0x11046, 6), (0x11052, 0x11065, 8),
   (0x11066, 0x1106F, 14), (0x11070, 0x11070, 6), (0x11071, 0x11072, 15), (0x11073, 0x11074, 14),
   (0x11075, 0x11075, 15), (0x1107F, 0x1107F, 6), (0x11080, 0x11082, 14), (0x11083, 0x110AF, 15),
   (0x110B0, 0x110B8, 14), (0x110B9, 0x110BA, 6), (0x110C2, 0x110C2, 14), (0x110D0, 0x110E8, 15),
   (0x110F0, 0x110F9, 14), (0x11100, 0x11102, 14), (0x11103, 0x11126, 15), (0x11127, 0x11132, 14),
   (0x11133, 0x11134, 6), (0x11136, 0x1113F, 14), (0x11144, 0x11144, 15), (0x11145, 0x11146, 14),
   (0x11147, 0x11147, 15), (0x11150, 0x11172, 15), (0x11173, 0x11173, 6), (0x11176, 0x11176, 15),
   (0x11180, 0x11182, 14), (0x11183, 0x111B2, 15), (0x111B3, 0x111BF, 14), (0x111C0, 0x111C0, 6),
   (0x111C1, 0x111C4, 15), (0x111C9, 0x111CC, 6), (0x111CE, 0x111D9, 14), (0x111DA, 0x111DA, 15),
   (0x111DC, 0x111DC, 15), (0x111E1, 0x111F4, 8), (0x11200, 0x11211, 15), (0x11213, 0x1122B, 15),
   (0x1122C, 0x11234, 14), (0x11235, 0x11236, 6), (0x11237, 0x11237, 14), (0x1123E, 0x1123E, 14),
   (0x1123F, 0x11240, 15), (0x11241, 0x11241, 14), (0x11280, 0x11286, 15), (0x11288, 0x11288, 15),
   (0x1128A, 0x1128D, 15), (0x1128F, 0x1129D, 15), (0x1129F, 0x112A8, 15), (0x112B0, 0x112DE, 15),
   (0x112DF, 0x112E8, 14), (0x112E9, 0x112EA, 6), (0x112F0, 0x112F9, 14)]

private def runs11300 : List (Nat × Nat × Nat) :=
  [(0x11300, 0x11303, 14), (0x11305, 0x1130C, 15), (0x1130F, 0x11310, 15), (0x11313, 0x11328, 15),
   (0x1132A, 0x11330, 15), (0x11332, 0x11333, 15), (0x11335, 0x11339, 15), (0x1133B, 0x1133C, 6),
   (0x1133D, 0x1133D, 15), (0x1133E, 0x11344, 14), (0x11347, 0x11348, 14), (0x1134B, 0x1134C, 14),
   (0x1134D, 0x1134D, 6), (0x11350, 0x11350, 15), (0x11357, 0x11357, 14), (0x1135D, 0x11361, 15),
   (0x11362, 0x11363, 14), (0x11366, 0x1136C, 6), (0x11370, 0x11374, 6), (0x11400, 0x11434, 15),
   (0x11435, 0x11441, 14), (0x11442, 0x11442, 6), (0x11443, 0x11445, 14), (0x11446, 0x11446, 6),
   (0x11447, 0x1144A, 15), (0x11450, 0x11459, 14), (0x1145E, 0x1145E, 6), (0x1145F, 0x11461, 15),
   (0x11480, 0x114AF, 15), (0x114B0, 0x114C1, 14), (0x114C2, 0x114C3, 6), (0x114C4, 0x114C5, 15),
   (0x114C7, 0x114C7, 15), (0x114D0, 0x114D9, 14), (0x11580, 0x115AE, 15), (0x115AF, 0x115B5, 14),
   (0x115B8, 0x115BE, 14), (0x115BF, 0x115C0, 6), (0x115D8, 0x115DB, 15), (0x115DC, 0x115DD, 14),
   (0x11600, 0x1162F, 15), (0x11630, 0x1163E, 14), (0x1163F, 0x1163F, 6), (0x11640, 0x11640, 14),
   (0x11644, 0x11644, 15), (0x11650, 0x11659, 14), (0x11680, 0x116AA, 15), (0x116AB, 0x116B5, 14),
   (0x116B6, 0x116B7, 6), (0x116B8, 0x116B8, 15), (0x116C0, 0x116C9, 14), (0x11700, 0x1171A, 15),
   (0x1171D, 0x1172A, 14), (0x1172B, 0x1172B, 6), (0x11730, 0x11739, 14), (0x1173A, 0x1173B, 8),
   (0x11740, 0x11746, 15), (0x11800, 0x1182B, 15), (0x1182C, 0x11838, 14), (0x11839, 0x1183A, 6),
   (0x118A0, 0x118DF, 15), (0x118E0, 0x118E9, 14), (0x118EA, 0x118F2, 8), (0x118FF, 0x11906, 15),
   (0x11909, 0x11909, 15), (0x1190C, 0x11913, 15), (0x11915, 0x11916, 15), (0x11918, 0x1192F, 15),
   (0x11930, 0x11935, 14), (0x11937, 0x11938, 14), (0x1193B, 0x1193C, 14), (0x1193D, 0x1193E, 6),
   (0x1193F, 0x1193F, 15), (0x11940, 0x11940, 14), (0x11941, 0x11941, 15), (0x11942, 0x11942, 14),
   (0x11943, 0x11943, 6), (0x11950, 0x11959, 14), (0x119A0, 0x119A7, 15), (0x119AA, 0x119D0, 15),
   (0x119D1, 0x119D7, 14), (0x119DA, 0x119DF, 14), (0x119E0, 0x119E0, 6), (0x119E1, 0x119E1, 15),
   (0x119E3, 0x119E3, 15), (0x119E4, 0x119E4, 14), (0x11A00, 0x11A00, 15), (0x11A01, 0x11A0A, 14),
   (0x11A0B, 0x11A32, 15), (0x11A33, 0x11A34, 6), (0x11A35, 0x11A39, 14), (0x11A3A, 0x11A3A, 15),
   (0x11A3B, 0x11A3E, 14), (0x11A47, 0x11A47, 6), (0x11A50, 0x11A50, 15), (0x11A51, 0x11A5B, 14),
   (0x11A5C, 0x11A89, 15), (0x11A8A, 0x11A97, 14), (0x11A98, 0x11A99, 6), (0x11A9D, 0x11A9D, 15),
   (0x11AB0, 0x11AF8, 15), (0x11C00, 0x11C08, 15), (0x11C0A, 0x11C2E, 15), (0x11C2F, 0x11C36, 14),
   (0x11C38, 0x11C3E, 14), (0x11C3F, 0x11C3F, 6), (0x11C40, 0x11C40, 15), (0x11C50, 0x11C59, 14),
   (0x11C5A, 0x11C6C, 8), (0x11C72, 0x11C8F, 15), (0x11C92, 0x11CA7, 14), (0x11CA9, 0x11CB6, 14),
   (0x11D00, 0x11D06, 15), (0x11D08, 0x11D09, 15), (0x11D0B, 0x11D30, 15), (0x11D31, 0x11D36, 14),
   (0x11D3A, 0x11D3A, 14), (0x11D3C, 0x11D3D, 14), (0x11D3F, 0x11D41, 14), (0x11D42, 0x11D42, 6),
   (0x11D43, 0x11D43, 14), (0x11D44, 0x11D45, 6), (0x11D46, 0x11D46, 15), (0x11D47, 0x11D47, 14),
   (0x11D50, 0x11D59, 14), (0x11D60, 0x11D65, 15), (0x11D67, 0x11D68, 15), (0x11D6A, 0x11D89, 15),
   (0x11D8A, 0x11D8E, 14), (0x11D90, 0x11D91, 14), (0x11D93, 0x11D96, 14), (0x11D97, 0x11D97, 6),
   (0x11D98, 0x11D98, 15), (0x11DA0, 0x11DA9, 14), (0x11EE0, 0x11EF2, 15), (0x11EF3, 0x11EF6, 14),
   (0x11F00, 0x11F01, 14), (0x11F02, 0x11F02, 15), (0x11F03, 0x11F03, 14), (0x11F04, 0x11F10, 15),
   (0x11F12, 0x11F33, 15), (0x11F34, 0x11F3A, 14), (0x11F3E, 0x11F40, 14), (0x11F41, 0x11F42, 6),
   (0x11F50, 0x11F59, 14), (0x11FB0, 0x11FB0, 15), (0x11FC0, 0x11FD4, 8), (0x12000, 0x12399, 15),
   (0x12400, 0x1246E, 15), (0x12480, 0x12543, 15), (0x12F90, 0x12FF0, 15), (0x13000, 0x1342F, 15),
   (0x13440, 0x13440, 6), (0x13441, 0x13446, 15), (0x13447, 0x13455, 6), (0x14400, 0x14646, 15),
   (0x16800, 0x16A38, 15), (0x16A40, 0x16A5E, 15), (0x16A60, 0x16A69, 14), (0x16A70, 0x16ABE, 15),
   (0x16AC0, 0x16AC9, 14), (0x16AD0, 0x16AED, 15), (0x16AF0, 0x16AF4, 6), (0x16B00, 0x16B2F, 15),
   (0x16B30, 0x16B36, 6), (0x16B40, 0x16B43, 15), (0x16B50, 0x16B59, 14), (0x16B5B, 0x16B61, 8),
   (0x16B63, 0x16B77, 15), (0x16B7D, 0x16B8F, 15), (0x16E40, 0x16E7F, 15), (0x16E80, 0x16E96, 8),
   (0x16F00, 0x16F4A, 15), (0x16F4F, 0x16F4F, 14), (0x16F50, 0x16F50, 15), (0x16F51, 0x16F87, 14),
   (0x16F8F, 0x16F92, 14), (0x16F93, 0x16F9F, 15), (0x16FE0, 0x16FE1, 15), (0x16FE3, 0x16FE3, 15),
   (0x16FE4, 0x16FE4, 6), (0x16FF0, 0x16FF1, 14), (0x17000, 0x187F7, 15), (0x18800, 0x18CD5, 15),
   (0x18D00, 0x18D08, 15), (0x1AFF0, 0x1AFF3, 15), (0x1AFF5, 0x1AFFB, 15), (0x1AFFD, 0x1AFFE, 15),
   (0x1B000, 0x1B122, 15), (0x1B132, 0x1B132, 15), (0x1B150, 0x1B152, 15), (0x1B155, 0x1B155, 15),
   (0x1B164, 0x1B167, 15), (0x1B170, 0x1B2FB, 15), (0x1BC00, 0x1BC6A, 15), (0x1BC70, 0x1BC7C, 15),
   (0x1BC80, 0x1BC88, 15), (0x1BC90, 0x1BC99, 15), (0x1BC9D, 0x1BC9D, 6), (0x1BC9E, 0x1BC9E, 14),
   (0x1CF00, 0x1CF2D, 6), (0x1CF30, 0x1CF46, 6), (0x1D165, 0x1D169, 6), (0x1D16D, 0x1D172, 6),
   (0x1D17B, 0x1D182, 6), (0x1D185, 0x1D18B, 6), (0x1D1AA, 0x1D1AD, 6), (0x1D242, 0x1D244, 6),
   (0x1D2C0, 0x1D2D3, 8), (0x1D2E0, 0x1D2F3, 8), (0x1D360, 0x1D378, 8), (0x1D400, 0x1D454, 15),
   (0x1D456, 0x1D49C, 15), (0x1D49E, 0x1D49F, 15), (0x1D4A2, 0x1D4A2, 15), (0x1D4A5, 0x1D4A6, 15),
   (0x1D4A9, 0x1D4AC, 15), (0x1D4AE, 0x1D4B9, 15), (0x1D4BB, 0x1D4BB, 15), (0x1D4BD, 0x1D4C3, 15),
   (0x1D4C5, 0x1D505, 15), (0x1D507, 0x1D50A, 15), (0x1D50D, 0x1D514, 15), (0x1D516, 0x1D51C, 15),
   (0x1D51E, 0x1D539, 15), (0x1D53B, 0x1D53E, 15), (0x1D540, 0x1D544, 15), (0x1D546, 0x1D546, 15),
   (0x1D54A, 0x1D550, 15), (0x1D552, 0x1D6A5, 15), (0x1D6A8, 0x1D6C0, 15), (0x1D6C2, 0x1D6DA, 15),
   (0x1D6DC, 0x1D6FA, 15), (0x1D6FC, 0x1D714, 15), (0x1D716, 0x1D734, 15), (0x1D736, 0x1D74E, 15),
   (0x1D750, 0x1D76E, 15), (0x1D770, 0x1D788, 15), (0x1D78A, 0x1D7A8, 15), (0x1D7AA, 0x1D7C2, 15),
   (0x1D7C4, 0x1D7CB, 15), (0x1D7CE, 0x1D7FF, 14), (0x1DA00, 0x1DA36, 6), (0x1DA3B, 0x1DA6C, 6),
   (0x1DA75, 0x1DA75, 6), (0x1DA84, 0x1DA84, 6), (0x1DA9B, 0x1DA9F, 6), (0x1DAA1, 0x1DAAF, 6),
   (0x1DF00, 0x1DF1E, 15), (0x1DF25, 0x1DF2A, 15), (0x1E000, 0x1E006, 14), (0x1E008, 0x1E018, 14),
   (0x1E01B, 0x1E021, 14), (0x1E023, 0x1E024, 14), (0x1E026, 0x1E02A, 14), (0x1E030, 0x1E06D, 15),
   (0x1E08F, 0x1E08F, 14), (0x1E100, 0x1E12C, 15), (0x1E130, 0x1E136, 6), (0x1E137, 0x1E13D, 15),
   (0x1E140, 0x1E149, 14), (0x1E14E, 0x1E14E, 15), (0x1E290, 0x1E2AD, 15), (0x1E2AE, 0x1E2AE, 6),
   (0x1E2C0, 0x1E2EB, 15), (0x1E2EC, 0x1E2EF, 6), (0x1E2F0, 0x1E2F9, 14), (0x1E4D0, 0x1E4EB, 15),
   (0x1E4EC, 0x1E4EF, 6), (0x1E4F0, 0x1E4F9, 14), (0x1E7E0, 0x1E7E6, 15), (0x1E7E8, 0x1E7EB, 15),
   (0x1E7ED, 0x1E7EE, 15), (0x1E7F0, 0x1E7FE, 15), (0x1E800, 0x1E8C4, 15), (0x1E8C7, 0x1E8CF, 8),
   (0x1E8D0, 0x1E8D6, 6), (0x1E900, 0x1E943, 15), (0x1E944, 0x1E946, 6), (0x1E947, 0x1E947, 14),
   (0x1E948, 0x1E94A, 6), (0x1E94B, 0x1E94B, 15), (0x1E950, 0x1E959, 14), (0x1EC71, 0x1ECAB, 8),
   (0x1ECAD, 0x1ECAF, 8), (0x1ECB1, 0x1ECB4, 8), (0x1ED01, 0x1ED2D, 8), (0x1ED2F, 0x1ED3D, 8),
   (0x1EE00, 0x1EE03, 15), (0x1EE05, 0x1EE1F, 15), (0x1EE21, 0x1EE22, 15), (0x1EE24, 0x1EE24, 15),
   (0x1EE27, 0x1EE27, 15), (0x1EE29, 0x1EE32, 15), (0x1EE34, 0x1EE37, 15), (0x1EE39, 0x1EE39, 15),
   (0x1EE3B, 0x1EE3B, 15), (0x1EE42, 0x1EE42, 15), (0x1EE47, 0x1EE47, 15), (0x1EE49, 0x1EE49, 15),
   (0x1EE4B, 0x1EE4B, 15), (0x1EE4D, 0x1EE4F, 15), (0x1EE51, 0x1EE52, 15), (0x1EE54, 0x1EE54, 15),
   (0x1EE57, 0x1EE57, 15), (0x1EE59, 0x1EE59, 15), (0x1EE5B, 0x1EE5B, 15), (0x1EE5D, 0x1EE5D, 15),
   (0x1EE5F, 0x1EE5F, 15), (0x1EE61, 0x1EE62, 15), (0x1EE64, 0x1EE64, 15), (0x1EE67, 0x1EE6A, 15),
   (0x1EE6C, 0x1EE72, 15), (0x1EE74, 0x1EE77, 15), (0x1EE79, 0x1EE7C, 15), (0x1EE7E, 0x1EE7E, 15),
   (0x1EE80, 0x1EE89, 15), (0x1EE8B, 0x1EE9B, 15), (0x1EEA1, 0x1EEA3, 15), (0x1EEA5, 0x1EEA9, 15),
   (0x1EEAB, 0x1EEBB, 15), (0x1F100, 0x1F10C, 8), (0x1F130, 0x1F149, 12), (0x1F150, 0x1F169, 12),
   (0x1F170, 0x1F189, 12), (0x1FBF0, 0x1FBF9, 14), (0x20000, 0x2A6DF, 15), (0x2A700, 0x2B739, 15),
   (0x2B740, 0x2B81D, 15), (0x2B820, 0x2CEA1, 15), (0x2CEB0, 0x2EBE0, 15), (0x2F800, 0x2FA1D, 15),
   (0x30000, 0x3134A, 15), (0x31350, 0x323AF, 15), (0xE0100, 0xE01EF, 6)]

private def runsNear (n : Nat) : List (Nat × Nat × Nat) :=
  if n < 0xB00 then runs80
  else if n < 0x1249 then runsB00
  else if n < 0x2100 then runs1249
  else if n < 0xA48D then runs2100
  else if n < 0x10000 then runsA48D
  else if n < 0x11300 then runs10000
  else runs11300

private def rolesIn (n : Nat) : List (Nat × Nat × Nat) → Nat
  | [] => 0
  | (first, last, roles) :: rest =>
    if n < first then 0 else if n ≤ last then roles else rolesIn n rest

private def roles (c : Char) : Nat := rolesIn c.toNat (runsNear c.toNat)

private def isAscii (c : Char) : Bool := c.toNat < 128

def beginsName (c : Char) : Bool :=
  if isAscii c then c.isAlpha || c = '_' || c = '$' else roles c % 2 = 1

/-- The two joiners, U+200C and U+200D, continue a name but belong to no letter class. -/
def continuesName (c : Char) : Bool :=
  if isAscii c then c.isAlphanum || c = '_' || c = '$'
  else roles c / 2 % 2 = 1 || c = '\u200c' || c = '\u200d'

def isWordChar (c : Char) : Bool :=
  if isAscii c then c.isAlphanum || c = '_' else roles c / 4 % 2 = 1

def isAlphanumeric (c : Char) : Bool :=
  if isAscii c then c.isAlphanum else roles c / 8 % 2 = 1

end SpecCoverage.Text
