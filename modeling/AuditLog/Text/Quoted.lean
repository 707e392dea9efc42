import AuditLog.Text.Digits
import AuditLog.Text.Unprintable

/-! Text between double quotes, as filters and stored values are displayed. A
quote, a backslash and the usual controls have short escapes; other unprintable
characters are written by code point in braces. -/
namespace AuditLog.Text

def quotedChar (c : Char) : List Char :=
  if c == '"' then ['\\', '"']
  else if c == '\\' then ['\\', '\\']
  else if c == '\n' then ['\\', 'n']
  else if c == '\r' then ['\\', 'r']
  else if c == '\t' then ['\\', 't']
  else if c == '\x00' then ['\\', '0']
  else if isUnprintable c then ['\\', 'u', '\x7b'] ++ hexDigits c.toNat ++ ['\x7d']
  else [c]

def quoted (s : String) : List Char := '"' :: s.toList.flatMap quotedChar ++ ['"']

end AuditLog.Text
