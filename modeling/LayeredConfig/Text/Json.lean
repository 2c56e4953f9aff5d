/-!
# JSON text

Objects of texts, written over several lines. Inside quotes only quotation marks, backslashes and
the characters below the space are escaped.
-/

namespace LayeredConfig.Json

def escape (c : Char) : List Char :=
  match c with
  | '"' => ['\\', '"']
  | '\\' => ['\\', '\\']
  | '\x08' => ['\\', 'b']
  | '\t' => ['\\', 't']
  | '\n' => ['\\', 'n']
  | '\x0c' => ['\\', 'f']
  | '\r' => ['\\', 'r']
  | c =>
    if c.toNat < 0x20 then
      ['\\', 'u', '0', '0', Nat.digitChar (c.toNat / 16), Nat.digitChar (c.toNat % 16)]
    else [c]

def quote (text : String) : String :=
  String.ofList ('"' :: text.toList.flatMap escape ++ ['"'])

/-- An object with one member per line. -/
def object (members : List (String × String)) : String :=
  let lines := members.map fun (name, text) => "  " ++ quote name ++ ": " ++ quote text
  if lines.isEmpty then "\x7b\x7d" else "\x7b\n" ++ ",\n".intercalate lines ++ "\n\x7d"

end LayeredConfig.Json
