import GrammarMachine.Unicode.RangeTable

/-!
# Simple case folding

Two characters are alike up to case when their simple case foldings in the Unicode character
database (version 15) agree. `caseVariants` gives the characters that are alike with those of a set.
-/

namespace GrammarMachine

namespace Unicode

/-- A run of characters that are alike with the characters at a fixed distance. -/
structure CaseShift where
  /-- The characters that the row is about. -/
  range : CharRange
  /-- What to add to a code point to get its variant. -/
  offset : Int

/-- The row written as a range, a colon, and a signed hexadecimal distance. -/
def CaseShift.ofField? (field : List Char) : Option CaseShift :=
  match pieces (· == ':') field with
  | [r, d] => do
    let range ← CharRange.ofField? r
    match d with
    | '+' :: ds => some ⟨range, hexNat ds⟩
    | '-' :: ds => some ⟨range, -hexNat ds⟩
    | _ => none
  | _ => none

/-- Every pair of characters that are alike up to case, in both directions. -/
def caseShifts : List CaseShift :=
  (fields
    "41-5A:+20 4B:+20DF 53:+12C 61-7A:-20 6B:+20BF 73:+10C B5:+2E7 B5:+307 C0-D6:+20 C5:+2066
    D8-DE:+20 DF:+1DBF E0-F6:-20 E5:+2046 F8-FE:-20 FF:+79 100-12E/2:+1 101-12F/2:-1
    132-136/2:+1 133-137/2:-1 139-147/2:+1 13A-148/2:-1 14A-176/2:+1 14B-177/2:-1 178:-79
    179-17D/2:+1 17A-17E/2:-1 17F:-12C 17F:-10C 180:+C3 181:+D2 182:+1 183:-1 184:+1 185:-1
    186:+CE 187:+1 188:-1 189-18A:+CD 18B:+1 18C:-1 18E:+4F 18F:+CA 190:+CB 191:+1 192:-1
    193:+CD 194:+CF 195:+61 196:+D3 197:+D1 198:+1 199:-1 19A:+A3 19C:+D3 19D:+D5 19E:+82
    19F:+D6 1A0-1A4/2:+1 1A1-1A5/2:-1 1A6:+DA 1A7:+1 1A8:-1 1A9:+DA 1AC:+1 1AD:-1 1AE:+DA
    1AF:+1 1B0:-1 1B1-1B2:+D9 1B3:+1 1B4:-1 1B5:+1 1B6:-1 1B7:+DB 1B8:+1 1B9:-1 1BC:+1 1BD:-1
    1BF:+38 1C4:+2 1C4-1C5:+1 1C5-1C6:-1 1C6:-2 1C7:+2 1C7-1C8:+1 1C8-1C9:-1 1C9:-2 1CA:+2
    1CA-1CB:+1 1CB-1CC:-1 1CC:-2 1CD-1DB/2:+1 1CE-1DC/2:-1 1DD:-4F 1DE-1EE/2:+1 1DF-1EF/2:-1
    1F1:+2 1F1-1F2:+1 1F2-1F3:-1 1F3:-2 1F4:+1 1F5:-1 1F6:-61 1F7:-38 1F8-21E/2:+1 1F9-21F/2:-1
    220:-82 222-232/2:+1 223-233/2:-1 23A:+2A2B 23B:+1 23C:-1 23D:-A3 23E:+2A28 23F-240:+2A3F
    241:+1 242:-1 243:-C3 244:+45 245:+47 246-24E/2:+1 247-24F/2:-1 250:+2A1F 251:+2A1C
    252:+2A1E 253:-D2 254:-CE 256-257:-CD 259:-CA 25B:-CB 25C:+A54F 260:-CD 261:+A54B 263:-CF
    265:+A528 266:+A544 268:-D1 269:-D3 26A:+A544 26B:+29F7 26C:+A541 26F:-D3 271:+29FD 272:-D5
    275:-D6 27D:+29E7 280:-DA 282:+A543 283:-DA 287:+A52A 288:-DA 289:-45 28A-28B:-D9 28C:-47
    292:-DB 29D:+A515 29E:+A512 345:+54 345:+74 345:+1C79 370:+1 371:-1 372:+1 373:-1 376:+1
    377:-1 37B-37D:+82 37F:+74 386:+26 388-38A:+25 38C:+40 38E-38F:+3F 391-3A1:+20 392:+3E
    395:+60 398:+39 398:+5C 399:-54 399:+1C25 39A:+56 39C:-2E7 3A0:+36 3A1:+50 3A3:+1F
    3A3-3AB:+20 3A6:+2F 3A9:+1D7D 3AC:-26 3AD-3AF:-25 3B1-3C1:-20 3B2:+1E 3B5:+40 3B8:+19
    3B8:+3C 3B9:-74 3B9:+1C05 3BA:+36 3BC:-307 3C0:+16 3C1:+30 3C2:-1F 3C2:+1 3C3:-1
    3C3-3CB:-20 3C6:+F 3C9:+1D5D 3CC:-40 3CD-3CE:-3F 3CF:+8 3D0:-3E 3D0:-1E 3D1:-39 3D1:-19
    3D1:+23 3D5:-2F 3D5:-F 3D6:-36 3D6:-16 3D7:-8 3D8-3EE/2:+1 3D9-3EF/2:-1 3F0:-56 3F0:-36
    3F1:-50 3F1:-30 3F2:+7 3F3:-74 3F4:-5C 3F4:-3C 3F4:-23 3F5:-60 3F5:-40 3F7:+1 3F8:-1 3F9:-7
    3FA:+1 3FB:-1 3FD-3FF:-82 400-40F:+50 410-42F:+20 412:+186E 414:+186D 41E:+1864
    421-422:+1862 422:+1863 42A:+185C 430-44F:-20 432:+184E 434:+184D 43E:+1844 441-442:+1842
    442:+1843 44A:+183C 450-45F:-50 460-480/2:+1 461-481/2:-1 462:+1825 463:+1824 48A-4BE/2:+1
    48B-4BF/2:-1 4C0:+F 4C1-4CD/2:+1 4C2-4CE/2:-1 4CF:-F 4D0-52E/2:+1 4D1-52F/2:-1 531-556:+30
    561-586:-30 10A0-10C5:+1C60 10C7:+1C60 10CD:+1C60 10D0-10FA:+BC0 10FD-10FF:+BC0
    13A0-13EF:+97D0 13F0-13F5:+8 13F8-13FD:-8 1C80:-186E 1C80:-184E 1C81:-186D 1C81:-184D
    1C82:-1864 1C82:-1844 1C83-1C84:-1862 1C83-1C84:-1842 1C84:+1 1C85:-1863 1C85:-1843 1C85:-1
    1C86:-185C 1C86:-183C 1C87:-1825 1C87:-1824 1C88:+89C2 1C88:+89C3 1C90-1CBA:-BC0
    1CBD-1CBF:-BC0 1D79:+8A04 1D7D:+EE6 1D8E:+8A38 1E00-1E94/2:+1 1E01-1E95/2:-1 1E60:+3B
    1E61:+3A 1E9B:-3B 1E9B:-3A 1E9E:-1DBF 1EA0-1EFE/2:+1 1EA1-1EFF/2:-1 1F00-1F07:+8
    1F08-1F0F:-8 1F10-1F15:+8 1F18-1F1D:-8 1F20-1F27:+8 1F28-1F2F:-8 1F30-1F37:+8 1F38-1F3F:-8
    1F40-1F45:+8 1F48-1F4D:-8 1F51-1F57/2:+8 1F59-1F5F/2:-8 1F60-1F67:+8 1F68-1F6F:-8
    1F70-1F71:+4A 1F72-1F75:+56 1F76-1F77:+64 1F78-1F79:+80 1F7A-1F7B:+70 1F7C-1F7D:+7E
    1F80-1F87:+8 1F88-1F8F:-8 1F90-1F97:+8 1F98-1F9F:-8 1FA0-1FA7:+8 1FA8-1FAF:-8 1FB0-1FB1:+8
    1FB3:+9 1FB8-1FB9:-8 1FBA-1FBB:-4A 1FBC:-9 1FBE:-1C79 1FBE:-1C25 1FBE:-1C05 1FC3:+9
    1FC8-1FCB:-56 1FCC:-9 1FD0-1FD1:+8 1FD8-1FD9:-8 1FDA-1FDB:-64 1FE0-1FE1:+8 1FE5:+7
    1FE8-1FE9:-8 1FEA-1FEB:-70 1FEC:-7 1FF3:+9 1FF8-1FF9:-80 1FFA-1FFB:-7E 1FFC:-9 2126:-1D7D
    2126:-1D5D 212A:-20DF 212A:-20BF 212B:-2066 212B:-2046 2132:+1C 214E:-1C 2160-216F:+10
    2170-217F:-10 2183:+1 2184:-1 24B6-24CF:+1A 24D0-24E9:-1A 2C00-2C2F:+30 2C30-2C5F:-30
    2C60:+1 2C61:-1 2C62:-29F7 2C63:-EE6 2C64:-29E7 2C65:-2A2B 2C66:-2A28 2C67-2C6B/2:+1
    2C68-2C6C/2:-1 2C6D:-2A1C 2C6E:-29FD 2C6F:-2A1F 2C70:-2A1E 2C72:+1 2C73:-1 2C75:+1 2C76:-1
    2C7E-2C7F:-2A3F 2C80-2CE2/2:+1 2C81-2CE3/2:-1 2CEB:+1 2CEC:-1 2CED:+1 2CEE:-1 2CF2:+1
    2CF3:-1 2D00-2D25:-1C60 2D27:-1C60 2D2D:-1C60 A640-A66C/2:+1 A641-A66D/2:-1 A64A:-89C2
    A64B:-89C3 A680-A69A/2:+1 A681-A69B/2:-1 A722-A72E/2:+1 A723-A72F/2:-1 A732-A76E/2:+1
    A733-A76F/2:-1 A779:+1 A77A:-1 A77B:+1 A77C:-1 A77D:-8A04 A77E-A786/2:+1 A77F-A787/2:-1
    A78B:+1 A78C:-1 A78D:-A528 A790:+1 A791:-1 A792:+1 A793:-1 A794:+30 A796-A7A8/2:+1
    A797-A7A9/2:-1 A7AA:-A544 A7AB:-A54F A7AC:-A54B A7AD:-A541 A7AE:-A544 A7B0:-A512 A7B1:-A52A
    A7B2:-A515 A7B3:+3A0 A7B4-A7C2/2:+1 A7B5-A7C3/2:-1 A7C4:-30 A7C5:-A543 A7C6:-8A38 A7C7:+1
    A7C8:-1 A7C9:+1 A7CA:-1 A7D0:+1 A7D1:-1 A7D6:+1 A7D7:-1 A7D8:+1 A7D9:-1 A7F5:+1 A7F6:-1
    AB53:-3A0 AB70-ABBF:-97D0 FF21-FF3A:+20 FF41-FF5A:-20 10400-10427:+28 10428-1044F:-28
    104B0-104D3:+28 104D8-104FB:-28 10570-1057A:+27 1057C-1058A:+27 1058C-10592:+27
    10594-10595:+27 10597-105A1:-27 105A3-105B1:-27 105B3-105B9:-27 105BB-105BC:-27
    10C80-10CB2:+40 10CC0-10CF2:-40 118A0-118BF:+20 118C0-118DF:-20 16E40-16E5F:+20
    16E60-16E7F:-20 1E900-1E921:+22 1E922-1E943:-22").filterMap CaseShift.ofField?

/-- The code points at the row's distance from those of an interval that the row is about. -/
def CaseShift.image (s : CaseShift) (i : Interval) : List Interval :=
  let shift (n : Nat) : Nat := ((n : Int) + s.offset).toNat
  match i.inter? ⟨s.range.first, s.range.last⟩ with
  | none => []
  | some j =>
    if s.range.stride = 1 then [⟨shift j.lo, shift j.hi⟩]
    else
      (s.range.intervals.filter fun k => j.contains k.lo).map fun k => Interval.single (shift k.lo)

/-- The intervals of the code points that differ in case only from one in the list. -/
def caseVariants (is : List Interval) : List Interval :=
  caseShifts.flatMap fun s => is.flatMap s.image

end Unicode

end GrammarMachine
