import PocketMips.Text.Lines
import PocketMips.Value.Yaml.Node

/-!
Reading values from the YAML of settings files: the text becomes tokens, the tokens a node, and the node
a value. A key that comes again replaces the earlier entry.
-/
namespace PocketMips.Value.Yaml

open Text

/-- Whether a character may stand in a text. -/
def isAdmitted (c : Char) : Bool :=
  let n := c.toNat
  n = 0x09 || n = 0x0A || n = 0x0D || (0x20 ≤ n && n ≤ 0x7E) || n = 0x85 ||
    (0xA0 ≤ n && n ≤ 0xFFFD) || 0x10000 ≤ n

/-- The node of a text, which may be the start of a longer one. -/
def node? (isWhole : Bool) (text : List Char) : Except Error (Option Node) :=
  if text.all isAdmitted then Node.ofText? isWhole text else .error .malformed

/-- What is wrong with the start of a text, whatever comes behind it. -/
def fault? (start : List Char) : Option Error :=
  match node? false start with
  | .error .unfinished | .ok _ => none
  | .error e => some e

/-- The value of a text that holds one document at most; without a document it is null. -/
def parse (text : List Char) : Except Error Value := do
  match ← node? true (uniformBreaks text) with
  | none => return .null
  | some node => node.value (text.length + 1)

end PocketMips.Value.Yaml
