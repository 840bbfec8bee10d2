import Packrat.Unicode.Category
import Packrat.Unicode.Contribution
import Packrat.Unicode.Property
import Packrat.Unicode.Script
import Packrat.Unicode.ScriptExtension

/-!
# Character properties by name

The sets that the rest of the library asks for, derived from the property tables: categories
and their groups, the derived properties, and the look-up of a property by name or by name and
value.
-/

namespace Packrat.Unicode

/-- The characters of some general categories, given by their short names. -/
def categories (names : List String) : CharSet :=
  .unions ((categoryRows.filter fun row =>
    match row.names with
    | name :: _ => names.contains name
    | [] => false).map (·.toCharSet))

/-- The exceptional characters of a derived property. -/
def contribution (name : String) : CharSet :=
  match findRow? contributionRows (looseName name) with
  | some row => row.toCharSet
  | none => .empty

/-- The characters with a listed binary property. -/
def listedProperty (name : String) : CharSet :=
  match findRow? propertyRows (looseName name) with
  | some row => row.toCharSet
  | none => .empty

/-- The characters that have a category. -/
def assigned : CharSet := .unions (categoryRows.map (·.toCharSet))

/-- The characters that have none. -/
def unassigned : CharSet := assigned.complement

/-- Letters. -/
def letter : CharSet := categories ["Lu", "Ll", "Lt", "Lm", "Lo"]

/-- Letters, number letters and what else counts as alphabetic. -/
def alphabetic : CharSet :=
  .unions [letter, categories ["Nl"], contribution "Alphabetic"]

/-- Lower-case letters and what else counts as lower case. -/
def lowercase : CharSet := (categories ["Ll"]).union (contribution "Lowercase")

/-- Upper-case letters and what else counts as upper case. -/
def uppercase : CharSet := (categories ["Lu"]).union (contribution "Uppercase")

/-- Characters that have a case. -/
def cased : CharSet := .unions [lowercase, uppercase, categories ["Lt"]]

/-- Mathematical characters. -/
def math : CharSet := (categories ["Sm"]).union (contribution "Math")

/-- Marks that extend the character before them. -/
def graphemeExtend : CharSet := (categories ["Mn", "Me"]).union (contribution "Grapheme_Extend")

/-- Characters that stand on their own. -/
def graphemeBase : CharSet :=
  (CharSet.unions
    [categories ["Cc", "Cf", "Co", "Zl", "Zp"], unassigned, graphemeExtend]).complement

/-- Characters that start an identifier. -/
def idStart : CharSet :=
  (CharSet.unions [letter, categories ["Nl"], contribution "ID_Start"]).diff
    (listedProperty "Pattern_Syntax")

/-- Characters that continue an identifier. -/
def idContinue : CharSet :=
  .unions [idStart, categories ["Mn", "Mc", "Nd", "Pc"], contribution "ID_Continue"]

/-- Blanks of every kind. -/
def whiteSpace : CharSet := listedProperty "White_Space"

/-- Decimal digits of every script. -/
def digit : CharSet := categories ["Nd"]

/-- Characters of words: alphabetic ones, marks, digits, connectors and joiners. -/
def word : CharSet :=
  .unions [alphabetic, categories ["Mn", "Mc", "Me", "Nd", "Pc"], listedProperty "Join_Control"]

/-- Numbers of every kind. -/
def number : CharSet := categories ["Nd", "Nl", "No"]

/-- Characters that leave a mark on paper, and the plain space. -/
def printable : CharSet :=
  ((CharSet.unions [categories ["Cc", "Cf", "Co", "Zs", "Zl", "Zp"], unassigned]).complement).union
    (.singleton ' ')

/-- Groups of general categories, each by its names. -/
def categoryGroups : List (List String × CharSet) := [
  (["L", "Letter"], letter),
  (["LC", "Cased_Letter"], categories ["Lu", "Ll", "Lt"]),
  (["M", "Mark", "Combining_Mark"], categories ["Mn", "Mc", "Me"]),
  (["N", "Number"], number),
  (["P", "Punctuation", "Punct"], categories ["Pc", "Pd", "Ps", "Pe", "Pi", "Pf", "Po"]),
  (["S", "Symbol"], categories ["Sm", "Sc", "Sk", "So"]),
  (["Z", "Separator"], categories ["Zs", "Zl", "Zp"]),
  (["C", "Other"], (categories ["Cc", "Cf", "Co"]).union unassigned),
  (["Cn", "Unassigned"], unassigned),
  (["Any"], .full),
  (["Assigned"], assigned),
  (["ASCII"], .ofRanges [(0, 0x7F)])]

/-- The derived binary properties, each by its names. -/
def derivedProperties : List (List String × CharSet) := [
  (["Alpha", "Alphabetic"], alphabetic),
  (["Lower", "Lowercase"], lowercase),
  (["Upper", "Uppercase"], uppercase),
  (["Cased"], cased),
  (["Math"], math),
  (["Gr_Ext", "Grapheme_Extend"], graphemeExtend),
  (["Gr_Base", "Grapheme_Base"], graphemeBase),
  (["IDS", "ID_Start"], idStart),
  (["IDC", "ID_Continue"], idContinue),
  (["XIDS", "XID_Start"], idStart.diff (contribution "XID_Start")),
  (["XIDC", "XID_Continue"], idContinue.diff (contribution "XID_Continue"))]

/-- The set that a list of named sets gives to a name in its loose form. -/
def findNamed? (sets : List (List String × CharSet)) (loose : String) : Option CharSet :=
  (sets.find? fun entry => entry.1.any fun name => looseName name == loose).map (·.2)

/-- The characters of a general category or group of categories. -/
def category? (loose : String) : Option CharSet :=
  findNamed? categoryGroups loose <|> (findRow? categoryRows loose).map (·.toCharSet)

/-- The characters of a script. -/
def script? (loose : String) : Option CharSet := (findRow? scriptRows loose).map (·.toCharSet)

/-- The characters used with a script. -/
def scriptExtension? (loose : String) : Option CharSet :=
  (findRow? scriptExtensionRows loose).map (·.toCharSet) <|> script? loose

/-- The characters with a binary property. -/
def binaryProperty? (loose : String) : Option CharSet :=
  findNamed? derivedProperties loose <|> (findRow? propertyRows loose).map (·.toCharSet)

/-- The set that a single name stands for: a binary property, a general category or a script.
Three short names that would also be properties are always categories. -/
def named? (name : String) : Option CharSet :=
  let loose := looseName name
  if ["cf", "sc", "lc"].contains loose then category? loose
  else binaryProperty? loose <|> category? loose <|> script? loose

/-- The set that a property and one of its values stand for. -/
def valued? (property value : String) : Option CharSet :=
  let loose := looseName value
  match looseName property with
  | "gc" | "generalcategory" => category? loose
  | "sc" | "script" => script? loose
  | "scx" | "scriptextensions" => scriptExtension? loose
  | _ => none

end Packrat.Unicode
