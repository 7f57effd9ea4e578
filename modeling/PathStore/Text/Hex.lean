import PathStore.Text.Split
import PathStore.Text.Utf8

/-!
# Hexadecimal digits and percent encoding

Hexadecimal digits are read in either case and written in lower case.  In a path or a query, a
percent sign and two of them stand for one byte; a percent sign that is not followed by two digits
stands for itself.  A query is a list of fields, separated by `&`, each of them a name and a value,
separated by the first `=`; the value is empty where there is none, and an empty field is no field.
In both, `+` stands for a space, percent encoding is undone after that, and bytes that are not text
are replaced.
-/

namespace PathStore

namespace Hex

/-- The value of a digit, in either case. -/
def digit? (b : UInt8) : Option Nat :=
  if 0x30 ≤ b && b ≤ 0x39 then some (b.toNat - 0x30)
  else if 0x41 ≤ b && b ≤ 0x46 then some (b.toNat - 0x41 + 10)
  else if 0x61 ≤ b && b ≤ 0x66 then some (b.toNat - 0x61 + 10)
  else none

/-- The number written by digits, the most significant first. -/
def value? (digits : Bytes) : Option Nat :=
  digits.foldl (fun number b ↦ do return (← number) * 16 + (← digit? b)) (some 0)

/-- The last `count` digits of `n`. -/
def fixed : Nat → Nat → List Char
  | 0, _ => []
  | count + 1, n => fixed count (n / 16) ++ [Nat.digitChar (n % 16)]

def digits (n : Nat) : List Char :=
  Nat.toDigits 16 n

example : value? [0x30, 0x30, 0x65, 0x39] = some 0xE9 := rfl

example : fixed 4 0x1F = ['0', '0', '1', 'f'] := rfl

end Hex

namespace Percent

def decode : Bytes → Bytes
  | [] => []
  | b :: rest =>
    match rest with
    | high :: low :: rest' =>
      if b = 0x25 then
        match Hex.digit? high, Hex.digit? low with
        | some h, some l => UInt8.ofNat (h * 16 + l) :: decode rest'
        | _, _ => b :: decode (high :: low :: rest')
      else b :: decode (high :: low :: rest')
    | [low] => b :: decode [low]
    | [] => [b]

example : decode (Utf8.encode "a%2Fb%C3%A9+") = Utf8.encode "a/bé+" := by decide

example : decode (Utf8.encode "%%41%4%zz%") = Utf8.encode "%A%4%zz%" := by decide

end Percent

namespace Form

def text (bytes : Bytes) : String :=
  Utf8.decodeLossy (Percent.decode (bytes.map fun b ↦ if b = 0x2B then 0x20 else b))

/-- The name and the value of one field. -/
def field (bytes : Bytes) : String × String :=
  let name := bytes.takeWhile (· != 0x3D)
  (text name, text (bytes.drop (name.length + 1)))

def fields (query : Bytes) : List (String × String) :=
  ((splitAtEach 0x26 query).filter (!·.isEmpty)).map field

example : fields (Utf8.encode "q=a%3A1+b&&x&=y=") =
    [("q", "a:1 b"), ("x", ""), ("", "y=")] := by decide

end Form

end PathStore
