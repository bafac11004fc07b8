import LeadSheet.Text.Shown

/-!
# Quoted text

Text inside double quotes, as an error message cites it: the quote and the backslash are escaped,
and what has no sign of its own is written by its number.
-/

namespace LeadSheet.Text
set_option autoImplicit false

def escapeChar (c : Char) : List Char :=
  match c with
  | '\x00' => ['\\', '0']
  | '\t' => ['\\', 't']
  | '\r' => ['\\', 'r']
  | '\n' => ['\\', 'n']
  | '"' => ['\\', '"']
  | '\\' => ['\\', '\\']
  | c =>
    if isShown c then [c]
    else '\\' :: 'u' :: '{' :: Nat.toDigits 16 c.toNat ++ ['}']

def quoted (s : String) : String :=
  String.ofList ('"' :: s.toList.flatMap escapeChar ++ ['"'])

end LeadSheet.Text
