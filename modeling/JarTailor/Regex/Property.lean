import JarTailor.Regex.CharSet

/-!
# Properties of characters by name

Names may be written in any case, with blanks, hyphens and underscores anywhere, and with `is` in
front.
-/

namespace JarTailor.Regex.Property

/-- The categories by their short and long names. -/
def categoryNames : List (List String × List String) := [
  (["l", "letter"], ["Lu", "Ll", "Lt", "Lm", "Lo"]), (["lc", "casedletter"], ["Lu", "Ll", "Lt"]),
  (["lu", "uppercaseletter"], ["Lu"]), (["ll", "lowercaseletter"], ["Ll"]),
  (["lt", "titlecaseletter"], ["Lt"]), (["lm", "modifierletter"], ["Lm"]),
  (["lo", "otherletter"], ["Lo"]), (["m", "mark", "combiningmark"], ["Mn", "Mc", "Me"]),
  (["mn", "nonspacingmark"], ["Mn"]), (["mc", "spacingmark"], ["Mc"]),
  (["me", "enclosingmark"], ["Me"]), (["n", "number"], ["Nd", "Nl", "No"]),
  (["nd", "decimalnumber", "digit"], ["Nd"]), (["nl", "letternumber"], ["Nl"]),
  (["no", "othernumber"], ["No"]),
  (["p", "punctuation", "punct"], ["Pc", "Pd", "Ps", "Pe", "Pi", "Pf", "Po"]),
  (["pc", "connectorpunctuation"], ["Pc"]), (["pd", "dashpunctuation"], ["Pd"]),
  (["ps", "openpunctuation"], ["Ps"]), (["pe", "closepunctuation"], ["Pe"]),
  (["pi", "initialpunctuation"], ["Pi"]), (["pf", "finalpunctuation"], ["Pf"]),
  (["po", "otherpunctuation"], ["Po"]), (["s", "symbol"], ["Sm", "Sc", "Sk", "So"]),
  (["sm", "mathsymbol"], ["Sm"]), (["sc", "currencysymbol"], ["Sc"]),
  (["sk", "modifiersymbol"], ["Sk"]), (["so", "othersymbol"], ["So"]),
  (["z", "separator"], ["Zs", "Zl", "Zp"]), (["zs", "spaceseparator"], ["Zs"]),
  (["zl", "lineseparator"], ["Zl"]), (["zp", "paragraphseparator"], ["Zp"]),
  (["c", "other"], ["Cc", "Cf", "Cs", "Co", "Cn"]), (["cc", "control", "cntrl"], ["Cc"]),
  (["cf", "format"], ["Cf"]), (["cs", "surrogate"], ["Cs"]), (["co", "privateuse"], ["Co"]),
  (["cn", "unassigned"], ["Cn"])]

/-- A name without what does not matter in it. -/
def normalize (name : String) : String :=
  let chars := name.toList.map Char.toLower
  let bare := if ['i', 's'].isPrefixOf chars then chars.drop 2 else chars
  let kept := String.ofList (bare.filter fun c => c.toNat < 0x80 && !([' ', '_', '-'].contains c))
  if kept = "c" && bare.length < chars.length then "isc" else kept

def ofCategory? (name : String) : Option CharSet :=
  match name with
  | "any" => some .everything
  | "assigned" => some (.complement (.categories ["Cn"]))
  | "ascii" => some (.range '\x00' '\x7f')
  | _ => (categoryNames.find? (·.1.contains name)).map fun (_, names) => .categories names

/-- Properties that are no categories, with the sets that stand for them. Those of letters go by
category, which leaves out a few marks and symbols. -/
def otherNames : List (List String × CharSet) := [
  (["whitespace", "wspace", "space"], .space),
  (["alphabetic", "alpha"], .categories ["Lu", "Ll", "Lt", "Lm", "Lo", "Nl"]),
  (["uppercase", "upper"], .categories ["Lu"]), (["lowercase", "lower"], .categories ["Ll"])]

/-- The characters that a single name is about. -/
def named? (name : String) : Option CharSet :=
  let name := normalize name
  match otherNames.find? (·.1.contains name) with
  | some (_, set) => some set
  | none => ofCategory? name

def isCategory (name : String) : Bool :=
  ["gc", "generalcategory"].contains (normalize name)

def valued? (value : String) : Option CharSet :=
  ofCategory? (normalize value)

end JarTailor.Regex.Property
