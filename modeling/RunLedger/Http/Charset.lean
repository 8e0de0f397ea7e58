import RunLedger.Text.Utf8

/-!
Bodies as text. The content type may name a charset; unknown ones are taken for UTF-8. Latin-1 and
ASCII are read as Windows-1252. A byte order mark in front is not part of the text.
-/

set_option autoImplicit false

namespace RunLedger.Http

/-- The characters of the bytes 0x80 to 0x9F in Windows-1252. -/
private def upperControls : List Nat := [
  0x20AC, 0x81, 0x201A, 0x192, 0x201E, 0x2026, 0x2020, 0x2021, 0x2C6, 0x2030, 0x160, 0x2039, 0x152,
  0x8D, 0x17D, 0x8F, 0x90, 0x2018, 0x2019, 0x201C, 0x201D, 0x2022, 0x2013, 0x2014, 0x2DC, 0x2122,
  0x161, 0x203A, 0x153, 0x9D, 0x17E, 0x178]

def windows1252 (b : UInt8) : Char :=
  if 0x80 ≤ b ∧ b ≤ 0x9F then Char.ofNat (upperControls.getD (b.toNat - 0x80) b.toNat)
  else Char.ofNat b.toNat

private def latinLabels : List String :=
  ["iso-8859-1", "iso8859-1", "iso_8859-1", "latin1", "latin-1", "l1", "us-ascii", "ascii",
    "windows-1252", "cp1252", "x-cp1252"]

/-- The charset that a content type names, in lower case. -/
def charset? (contentType : String) : Option String :=
  let parameters := (contentType.splitOn ";").drop 1
  parameters.findSome? fun p =>
    match p.splitOn "=" with
    | [name, value] =>
      if name.trimAscii.toString.toLower = "charset" then
        some ((value.trimAscii.toString.replace "\"" "").toLower)
      else none
    | _ => none

def bodyText (contentType : Option String) (body : List UInt8) : String :=
  match body with
  | 0xEF :: 0xBB :: 0xBF :: rest => Text.Utf8.lossy (Text.Utf8.decode rest)
  | _ =>
    let isLatin := (contentType.bind charset?).any latinLabels.contains
    if isLatin then String.ofList (body.map windows1252)
    else Text.Utf8.lossy (Text.Utf8.decode body)

end RunLedger.Http
