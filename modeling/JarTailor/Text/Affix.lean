/-!
# Beginnings and ends of texts
-/

namespace JarTailor.Text

def stripStart? (start text : String) : Option String :=
  (start.toList.isPrefixOf? text.toList).map String.ofList

def startsWith (start text : String) : Bool :=
  start.toList.isPrefixOf text.toList

def stripEnd? (finish text : String) : Option String :=
  (finish.toList.reverse.isPrefixOf? text.toList.reverse).map fun rest =>
    String.ofList rest.reverse

def endsWith (finish text : String) : Bool :=
  finish.toList.isSuffixOf text.toList

def isSpace (c : Char) : Bool :=
  let code := c.toNat
  (0x09 ≤ code && code ≤ 0x0d) || code == 0x20 || code == 0x85 || code == 0xa0 ||
    code == 0x1680 || (0x2000 ≤ code && code ≤ 0x200a) || code == 0x2028 || code == 0x2029 ||
    code == 0x202f || code == 0x205f || code == 0x3000

def trim (text : String) : String :=
  String.ofList ((text.toList.dropWhile isSpace).reverse.dropWhile isSpace).reverse

theorem startsWith_iff {start text : String} :
    startsWith start text = true ↔ start.toList <+: text.toList := by
  simp [startsWith]

theorem endsWith_iff {finish text : String} :
    endsWith finish text = true ↔ finish.toList <:+ text.toList := by
  simp [endsWith]

end JarTailor.Text
