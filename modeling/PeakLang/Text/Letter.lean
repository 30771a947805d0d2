import PeakLang.Text.CharSet

namespace PeakLang.Letter

/-- Letters past ASCII: the general categories Lu, Ll, Lt, Lm and Lo of Unicode 17.0. -/
def letters : CharSet := .ofTable
  ["AA", "B5", "BA", "C0-D6", "D8-F6", "F8-2C1", "2C6-2D1", "2E0-2E4", "2EC-2EE/2", "370-374",
   "376-377", "37A-37D", "37F", "386", "388-38A", "38C", "38E-3A1", "3A3-3F5", "3F7-481", "48A-52F",
   "531-556", "559", "560-588", "5D0-5EA", "5EF-5F2", "620-64A", "66E-66F", "671-6D3", "6D5",
   "6E5-6E6", "6EE-6EF", "6FA-6FC", "6FF", "710", "712-72F", "74D-7A5", "7B1", "7CA-7EA", "7F4-7F5",
   "7FA", "800-815", "81A", "824", "828", "840-858", "860-86A", "870-887", "889-88F", "8A0-8C9",
   "904-939", "93D", "950", "958-961", "971-980", "985-98C", "98F-990", "993-9A8", "9AA-9B0", "9B2",
   "9B6-9B9", "9BD", "9CE", "9DC-9DD", "9DF-9E1", "9F0-9F1", "9FC", "A05-A0A", "A0F-A10", "A13-A28",
   "A2A-A30", "A32-A33", "A35-A36", "A38-A39", "A59-A5C", "A5E", "A72-A74", "A85-A8D", "A8F-A91",
   "A93-AA8", "AAA-AB0", "AB2-AB3", "AB5-AB9", "ABD", "AD0", "AE0-AE1", "AF9", "B05-B0C", "B0F-B10",
   "B13-B28", "B2A-B30", "B32-B33", "B35-B39", "B3D", "B5C-B5D", "B5F-B61", "B71", "B83", "B85-B8A",
   "B8E-B90", "B92-B95", "B99-B9A", "B9C", "B9E-B9F", "BA3-BA4", "BA8-BAA", "BAE-BB9", "BD0",
   "C05-C0C", "C0E-C10", "C12-C28", "C2A-C39", "C3D", "C58-C5A", "C5C-C5D", "C60-C61", "C80",
   "C85-C8C", "C8E-C90", "C92-CA8", "CAA-CB3", "CB5-CB9", "CBD", "CDC-CDE", "CE0-CE1", "CF1-CF2",
   "D04-D0C", "D0E-D10", "D12-D3A", "D3D", "D4E", "D54-D56", "D5F-D61", "D7A-D7F", "D85-D96",
   "D9A-DB1", "DB3-DBB", "DBD", "DC0-DC6", "E01-E30", "E32-E33", "E40-E46", "E81-E82", "E84",
   "E86-E8A", "E8C-EA3", "EA5", "EA7-EB0", "EB2-EB3", "EBD", "EC0-EC4", "EC6", "EDC-EDF", "F00",
   "F40-F47", "F49-F6C", "F88-F8C", "1000-102A", "103F", "1050-1055", "105A-105D", "1061",
   "1065-1066", "106E-1070", "1075-1081", "108E", "10A0-10C5", "10C7", "10CD", "10D0-10FA",
   "10FC-1248", "124A-124D", "1250-1256", "1258", "125A-125D", "1260-1288", "128A-128D",
   "1290-12B0", "12B2-12B5", "12B8-12BE", "12C0", "12C2-12C5", "12C8-12D6", "12D8-1310",
   "1312-1315", "1318-135A", "1380-138F", "13A0-13F5", "13F8-13FD", "1401-166C", "166F-167F",
   "1681-169A", "16A0-16EA", "16F1-16F8", "1700-1711", "171F-1731", "1740-1751", "1760-176C",
   "176E-1770", "1780-17B3", "17D7", "17DC", "1820-1878", "1880-1884", "1887-18A8", "18AA",
   "18B0-18F5", "1900-191E", "1950-196D", "1970-1974", "1980-19AB", "19B0-19C9", "1A00-1A16",
   "1A20-1A54", "1AA7", "1B05-1B33", "1B45-1B4C", "1B83-1BA0", "1BAE-1BAF", "1BBA-1BE5",
   "1C00-1C23", "1C4D-1C4F", "1C5A-1C7D", "1C80-1C8A", "1C90-1CBA", "1CBD-1CBF", "1CE9-1CEC",
   "1CEE-1CF3", "1CF5-1CF6", "1CFA", "1D00-1DBF", "1E00-1F15", "1F18-1F1D", "1F20-1F45",
   "1F48-1F4D", "1F50-1F57", "1F59-1F5D/2", "1F5F-1F7D", "1F80-1FB4", "1FB6-1FBC", "1FBE",
   "1FC2-1FC4", "1FC6-1FCC", "1FD0-1FD3", "1FD6-1FDB", "1FE0-1FEC", "1FF2-1FF4", "1FF6-1FFC",
   "2071", "207F", "2090-209C", "2102", "2107", "210A-2113", "2115", "2119-211D", "2124-2128/2",
   "212A-212D", "212F-2139", "213C-213F", "2145-2149", "214E", "2183-2184", "2C00-2CE4",
   "2CEB-2CEE", "2CF2-2CF3", "2D00-2D25", "2D27", "2D2D", "2D30-2D67", "2D6F", "2D80-2D96",
   "2DA0-2DA6", "2DA8-2DAE", "2DB0-2DB6", "2DB8-2DBE", "2DC0-2DC6", "2DC8-2DCE", "2DD0-2DD6",
   "2DD8-2DDE", "2E2F", "3005-3006", "3031-3035", "303B-303C", "3041-3096", "309D-309F",
   "30A1-30FA", "30FC-30FF", "3105-312F", "3131-318E", "31A0-31BF", "31F0-31FF", "3400-4DBF",
   "4E00-A48C", "A4D0-A4FD", "A500-A60C", "A610-A61F", "A62A-A62B", "A640-A66E", "A67F-A69D",
   "A6A0-A6E5", "A717-A71F", "A722-A788", "A78B-A7DC", "A7F1-A801", "A803-A805", "A807-A80A",
   "A80C-A822", "A840-A873", "A882-A8B3", "A8F2-A8F7", "A8FB", "A8FD-A8FE", "A90A-A925",
   "A930-A946", "A960-A97C", "A984-A9B2", "A9CF", "A9E0-A9E4", "A9E6-A9EF", "A9FA-A9FE",
   "AA00-AA28", "AA40-AA42", "AA44-AA4B", "AA60-AA76", "AA7A", "AA7E-AAAF", "AAB1", "AAB5-AAB6",
   "AAB9-AABD", "AAC0-AAC2/2", "AADB-AADD", "AAE0-AAEA", "AAF2-AAF4", "AB01-AB06", "AB09-AB0E",
   "AB11-AB16", "AB20-AB26", "AB28-AB2E", "AB30-AB5A", "AB5C-AB69", "AB70-ABE2", "AC00-D7A3",
   "D7B0-D7C6", "D7CB-D7FB", "F900-FA6D", "FA70-FAD9", "FB00-FB06", "FB13-FB17", "FB1D",
   "FB1F-FB28", "FB2A-FB36", "FB38-FB3C", "FB3E", "FB40-FB41", "FB43-FB44", "FB46-FBB1",
   "FBD3-FD3D", "FD50-FD8F", "FD92-FDC7", "FDF0-FDFB", "FE70-FE74", "FE76-FEFC", "FF21-FF3A",
   "FF41-FF5A", "FF66-FFBE", "FFC2-FFC7", "FFCA-FFCF", "FFD2-FFD7", "FFDA-FFDC", "10000-1000B",
   "1000D-10026", "10028-1003A", "1003C-1003D", "1003F-1004D", "10050-1005D", "10080-100FA",
   "10280-1029C", "102A0-102D0", "10300-1031F", "1032D-10340", "10342-10349", "10350-10375",
   "10380-1039D", "103A0-103C3", "103C8-103CF", "10400-1049D", "104B0-104D3", "104D8-104FB",
   "10500-10527", "10530-10563", "10570-1057A", "1057C-1058A", "1058C-10592", "10594-10595",
   "10597-105A1", "105A3-105B1", "105B3-105B9", "105BB-105BC", "105C0-105F3", "10600-10736",
   "10740-10755", "10760-10767", "10780-10785", "10787-107B0", "107B2-107BA", "10800-10805",
   "10808", "1080A-10835", "10837-10838", "1083C", "1083F-10855", "10860-10876", "10880-1089E",
   "108E0-108F2", "108F4-108F5", "10900-10915", "10920-10939", "10940-10959", "10980-109B7",
   "109BE-109BF", "10A00", "10A10-10A13", "10A15-10A17", "10A19-10A35", "10A60-10A7C",
   "10A80-10A9C", "10AC0-10AC7", "10AC9-10AE4", "10B00-10B35", "10B40-10B55", "10B60-10B72",
   "10B80-10B91", "10C00-10C48", "10C80-10CB2", "10CC0-10CF2", "10D00-10D23", "10D4A-10D65",
   "10D6F-10D85", "10E80-10EA9", "10EB0-10EB1", "10EC2-10EC7", "10F00-10F1C", "10F27",
   "10F30-10F45", "10F70-10F81", "10FB0-10FC4", "10FE0-10FF6", "11003-11037", "11071-11072",
   "11075", "11083-110AF", "110D0-110E8", "11103-11126", "11144", "11147", "11150-11172", "11176",
   "11183-111B2", "111C1-111C4", "111DA-111DC/2", "11200-11211", "11213-1122B", "1123F-11240",
   "11280-11286", "11288", "1128A-1128D", "1128F-1129D", "1129F-112A8", "112B0-112DE",
   "11305-1130C", "1130F-11310", "11313-11328", "1132A-11330", "11332-11333", "11335-11339",
   "1133D", "11350", "1135D-11361", "11380-11389", "1138B", "1138E", "11390-113B5", "113B7",
   "113D1-113D3/2", "11400-11434", "11447-1144A", "1145F-11461", "11480-114AF", "114C4-114C5",
   "114C7", "11580-115AE", "115D8-115DB", "11600-1162F", "11644", "11680-116AA", "116B8",
   "11700-1171A", "11740-11746", "11800-1182B", "118A0-118DF", "118FF-11906", "11909",
   "1190C-11913", "11915-11916", "11918-1192F", "1193F-11941/2", "119A0-119A7", "119AA-119D0",
   "119E1-119E3/2", "11A00", "11A0B-11A32", "11A3A", "11A50", "11A5C-11A89", "11A9D", "11AB0-11AF8",
   "11BC0-11BE0", "11C00-11C08", "11C0A-11C2E", "11C40", "11C72-11C8F", "11D00-11D06",
   "11D08-11D09", "11D0B-11D30", "11D46", "11D60-11D65", "11D67-11D68", "11D6A-11D89", "11D98",
   "11DB0-11DDB", "11EE0-11EF2", "11F02", "11F04-11F10", "11F12-11F33", "11FB0", "12000-12399",
   "12480-12543", "12F90-12FF0", "13000-1342F", "13441-13446", "13460-143FA", "14400-14646",
   "16100-1611D", "16800-16A38", "16A40-16A5E", "16A70-16ABE", "16AD0-16AED", "16B00-16B2F",
   "16B40-16B43", "16B63-16B77", "16B7D-16B8F", "16D40-16D6C", "16E40-16E7F", "16EA0-16EB8",
   "16EBB-16ED3", "16F00-16F4A", "16F50", "16F93-16F9F", "16FE0-16FE1", "16FE3", "16FF2-16FF3",
   "17000-18CD5", "18CFF-18D1E", "18D80-18DF2", "1AFF0-1AFF3", "1AFF5-1AFFB", "1AFFD-1AFFE",
   "1B000-1B122", "1B132", "1B150-1B152", "1B155", "1B164-1B167", "1B170-1B2FB", "1BC00-1BC6A",
   "1BC70-1BC7C", "1BC80-1BC88", "1BC90-1BC99", "1D400-1D454", "1D456-1D49C", "1D49E-1D49F",
   "1D4A2", "1D4A5-1D4A6", "1D4A9-1D4AC", "1D4AE-1D4B9", "1D4BB", "1D4BD-1D4C3", "1D4C5-1D505",
   "1D507-1D50A", "1D50D-1D514", "1D516-1D51C", "1D51E-1D539", "1D53B-1D53E", "1D540-1D544",
   "1D546", "1D54A-1D550", "1D552-1D6A5", "1D6A8-1D6C0", "1D6C2-1D6DA", "1D6DC-1D6FA",
   "1D6FC-1D714", "1D716-1D734", "1D736-1D74E", "1D750-1D76E", "1D770-1D788", "1D78A-1D7A8",
   "1D7AA-1D7C2", "1D7C4-1D7CB", "1DF00-1DF1E", "1DF25-1DF2A", "1E030-1E06D", "1E100-1E12C",
   "1E137-1E13D", "1E14E", "1E290-1E2AD", "1E2C0-1E2EB", "1E4D0-1E4EB", "1E5D0-1E5ED", "1E5F0",
   "1E6C0-1E6DE", "1E6E0-1E6E2", "1E6E4-1E6E5", "1E6E7-1E6ED", "1E6F0-1E6F4", "1E6FE-1E6FF",
   "1E7E0-1E7E6", "1E7E8-1E7EB", "1E7ED-1E7EE", "1E7F0-1E7FE", "1E800-1E8C4", "1E900-1E943",
   "1E94B", "1EE00-1EE03", "1EE05-1EE1F", "1EE21-1EE22", "1EE24", "1EE27", "1EE29-1EE32",
   "1EE34-1EE37", "1EE39-1EE3B/2", "1EE42", "1EE47-1EE4B/2", "1EE4D-1EE4F", "1EE51-1EE52", "1EE54",
   "1EE57-1EE5F/2", "1EE61-1EE62", "1EE64", "1EE67-1EE6A", "1EE6C-1EE72", "1EE74-1EE77",
   "1EE79-1EE7C", "1EE7E", "1EE80-1EE89", "1EE8B-1EE9B", "1EEA1-1EEA3", "1EEA5-1EEA9",
   "1EEAB-1EEBB", "20000-2A6DF", "2A700-2B81D", "2B820-2CEAD", "2CEB0-2EBE0", "2EBF0-2EE5D",
   "2F800-2FA1D", "30000-3134A", "31350-33479"]

/-- Upper-case letters past ASCII: the category Lu alone. -/
def uppers : CharSet := .ofTable
  ["C0-D6", "D8-DE", "100-136/2", "139-147/2", "14A-176/2", "178-179", "17B-17D/2", "181-182",
   "184", "186-187", "189-18B", "18E-191", "193-194", "196-198", "19C-19D", "19F-1A0", "1A2-1A4/2",
   "1A6-1A7", "1A9", "1AC", "1AE-1AF", "1B1-1B3", "1B5", "1B7-1B8", "1BC", "1C4", "1C7", "1CA",
   "1CD-1DB/2", "1DE-1EE/2", "1F1", "1F4", "1F6-1F8", "1FA-232/2", "23A-23B", "23D-23E", "241",
   "243-246", "248-24E/2", "370-372/2", "376", "37F", "386", "388-38A", "38C", "38E-38F", "391-3A1",
   "3A3-3AB", "3CF", "3D2-3D4", "3D8-3EE/2", "3F4", "3F7", "3F9-3FA", "3FD-42F", "460-480/2",
   "48A-4BE/2", "4C0-4C1", "4C3-4CD/2", "4D0-52E/2", "531-556", "10A0-10C5", "10C7", "10CD",
   "13A0-13F5", "1C89", "1C90-1CBA", "1CBD-1CBF", "1E00-1E94/2", "1E9E-1EFE/2", "1F08-1F0F",
   "1F18-1F1D", "1F28-1F2F", "1F38-1F3F", "1F48-1F4D", "1F59-1F5F/2", "1F68-1F6F", "1FB8-1FBB",
   "1FC8-1FCB", "1FD8-1FDB", "1FE8-1FEC", "1FF8-1FFB", "2102", "2107", "210B-210D", "2110-2112",
   "2115", "2119-211D", "2124-2128/2", "212A-212D", "2130-2133", "213E-213F", "2145", "2183",
   "2C00-2C2F", "2C60", "2C62-2C64", "2C67-2C6B/2", "2C6D-2C70", "2C72", "2C75", "2C7E-2C80",
   "2C82-2CE2/2", "2CEB-2CED/2", "2CF2", "A640-A66C/2", "A680-A69A/2", "A722-A72E/2", "A732-A76E/2",
   "A779-A77B/2", "A77D-A77E", "A780-A786/2", "A78B-A78D/2", "A790-A792/2", "A796-A7A8/2",
   "A7AA-A7AE", "A7B0-A7B4", "A7B6-A7C2/2", "A7C4-A7C7", "A7C9", "A7CB-A7CC", "A7CE-A7DC/2", "A7F5",
   "FF21-FF3A", "10400-10427", "104B0-104D3", "10570-1057A", "1057C-1058A", "1058C-10592",
   "10594-10595", "10C80-10CB2", "10D50-10D65", "118A0-118BF", "16E40-16E5F", "16EA0-16EB8",
   "1D400-1D419", "1D434-1D44D", "1D468-1D481", "1D49C", "1D49E-1D49F", "1D4A2", "1D4A5-1D4A6",
   "1D4A9-1D4AC", "1D4AE-1D4B5", "1D4D0-1D4E9", "1D504-1D505", "1D507-1D50A", "1D50D-1D514",
   "1D516-1D51C", "1D538-1D539", "1D53B-1D53E", "1D540-1D544", "1D546", "1D54A-1D550",
   "1D56C-1D585", "1D5A0-1D5B9", "1D5D4-1D5ED", "1D608-1D621", "1D63C-1D655", "1D670-1D689",
   "1D6A8-1D6C0", "1D6E2-1D6FA", "1D71C-1D734", "1D756-1D76E", "1D790-1D7A8", "1D7CA",
   "1E900-1E921"]

/-- Lower-case letters past ASCII: the category Ll alone. -/
def lowers : CharSet := .ofTable
  ["B5", "DF-F6", "F8-FF", "101-135/2", "137-138", "13A-146/2", "148-149", "14B-177/2", "17A-17C/2",
   "17E-180", "183-185/2", "188", "18C-18D", "192", "195", "199-19B", "19E", "1A1-1A5/2", "1A8",
   "1AA-1AB", "1AD", "1B0", "1B4-1B6/2", "1B9-1BA", "1BD-1BF", "1C6", "1C9", "1CC-1DA/2", "1DC-1DD",
   "1DF-1ED/2", "1EF-1F0", "1F3-1F5/2", "1F9-231/2", "233-239", "23C", "23F-240", "242",
   "247-24D/2", "24F-293", "296-2AF", "371-373/2", "377", "37B-37D", "390", "3AC-3CE", "3D0-3D1",
   "3D5-3D7", "3D9-3ED/2", "3EF-3F3", "3F5", "3F8", "3FB-3FC", "430-45F", "461-481/2", "48B-4BF/2",
   "4C2-4CC/2", "4CE-4CF", "4D1-52F/2", "560-588", "10D0-10FA", "10FD-10FF", "13F8-13FD",
   "1C80-1C88", "1C8A", "1D00-1D2B", "1D6B-1D77", "1D79-1D9A", "1E01-1E93/2", "1E95-1E9D",
   "1E9F-1EFD/2", "1EFF-1F07", "1F10-1F15", "1F20-1F27", "1F30-1F37", "1F40-1F45", "1F50-1F57",
   "1F60-1F67", "1F70-1F7D", "1F80-1F87", "1F90-1F97", "1FA0-1FA7", "1FB0-1FB4", "1FB6-1FB7",
   "1FBE", "1FC2-1FC4", "1FC6-1FC7", "1FD0-1FD3", "1FD6-1FD7", "1FE0-1FE7", "1FF2-1FF4",
   "1FF6-1FF7", "210A", "210E-210F", "2113", "212F", "2134", "2139", "213C-213D", "2146-2149",
   "214E", "2184", "2C30-2C5F", "2C61", "2C65-2C66", "2C68-2C6C/2", "2C71", "2C73-2C74",
   "2C76-2C7B", "2C81-2CE1/2", "2CE3-2CE4", "2CEC-2CEE/2", "2CF3", "2D00-2D25", "2D27", "2D2D",
   "A641-A66D/2", "A681-A69B/2", "A723-A72D/2", "A72F-A731", "A733-A76F/2", "A771-A778",
   "A77A-A77C/2", "A77F-A787/2", "A78C-A78E/2", "A791", "A793-A795", "A797-A7A9/2", "A7AF",
   "A7B5-A7C3/2", "A7C8-A7CA/2", "A7CD-A7DB/2", "A7F6", "A7FA", "AB30-AB5A", "AB60-AB68",
   "AB70-ABBF", "FB00-FB06", "FB13-FB17", "FF41-FF5A", "10428-1044F", "104D8-104FB", "10597-105A1",
   "105A3-105B1", "105B3-105B9", "105BB-105BC", "10CC0-10CF2", "10D70-10D85", "118C0-118DF",
   "16E60-16E7F", "16EBB-16ED3", "1D41A-1D433", "1D44E-1D454", "1D456-1D467", "1D482-1D49B",
   "1D4B6-1D4B9", "1D4BB", "1D4BD-1D4C3", "1D4C5-1D4CF", "1D4EA-1D503", "1D51E-1D537",
   "1D552-1D56B", "1D586-1D59F", "1D5BA-1D5D3", "1D5EE-1D607", "1D622-1D63B", "1D656-1D66F",
   "1D68A-1D6A5", "1D6C2-1D6DA", "1D6DC-1D6E1", "1D6FC-1D714", "1D716-1D71B", "1D736-1D74E",
   "1D750-1D755", "1D770-1D788", "1D78A-1D78F", "1D7AA-1D7C2", "1D7C4-1D7C9", "1D7CB",
   "1DF00-1DF09", "1DF0B-1DF1E", "1DF25-1DF2A", "1E922-1E943"]

/-- Letters of any script. -/
def isLetter (c : Char) : Bool :=
  if c.toNat < 0x80 then c.isAlpha else letters.contains c.toNat

/-- Upper-case letters; title case does not count. -/
def isUpper (c : Char) : Bool :=
  if c.toNat < 0x80 then c.isUpper else uppers.contains c.toNat

def isLower (c : Char) : Bool :=
  if c.toNat < 0x80 then c.isLower else lowers.contains c.toNat

end PeakLang.Letter
