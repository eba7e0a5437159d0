import SwiftMacro.Unicode.Bidi
import SwiftMacro.Unicode.Joining
import SwiftMacro.Unicode.Mapping
import SwiftMacro.Url.Punycode
/-!
# Domain names

`Domain.normalize?` brings an internationalized domain name into its normal form: characters are
mapped and composed, labels in ASCII form are decoded, and every label has to follow the rules for
marks, joiners and writing direction. There is no limit on the length of names and no rule about
hyphens.
-/

namespace SwiftMacro.Domain

open Unicode

/-- The start of labels in ASCII form. -/
def asciiStart : List Char := "xn--".toList

/-- The longest ASCII form of a label that is decoded. -/
def decodeLimit : Nat := 2000

/-- The longest label, in characters, that has an ASCII form. -/
def encodeLimit : Nat := 1000

def isAscii (c : Char) : Bool := c.toNat < 128

/-- The ASCII characters that no host contains. -/
def isForbidden (c : Char) : Bool :=
  c.toNat ≤ 0x20 || c.toNat == 0x7f || "%#/:<>?@[\\]^|".toList.contains c

/-- A label that may stand in a domain name, except for its writing direction. -/
def isLabel (label : List Char) : Bool :=
  match label with
  | [] => true
  | c :: _ =>
      !isMark c && joinersFit [] label && (label.all isAscii || label.length ≤ encodeLimit)

/-- A label that was decoded has to be in normal form already. -/
def isDecodedLabel (label : List Char) : Bool :=
  !label.all isAscii && label.all isKept && normalizeC label == label &&
    !asciiStart.isPrefixOf label && isLabel label

/-- A label with its ASCII form decoded. -/
def label? (label : List Char) : Option (List Char) :=
  if asciiStart.isPrefixOf label then
    if label.length - 4 ≤ decodeLimit && label.all isAscii then
      match Punycode.decode? (label.drop 4) with
      | some decoded => if isDecodedLabel decoded then some decoded else none
      | none => none
    else none
  else if isLabel label then some label
  else none

/-- Whether a name is written from right to left somewhere. -/
def isBidi (labels : List (List Char)) : Bool :=
  labels.any fun label => label.any fun c => (BidiClass.ofChar c).isRightToLeft

/-- The labels of a domain name in normal form; `none` if the name is not allowed. -/
def labels? (name : List Char) : Option (List (List Char)) :=
  match name.mapM mapChar? with
  | none => none
  | some mapped =>
      let text := normalizeC mapped.flatten
      if text.any isForbidden then none
      else
        match (Text.splitOn '.' text).mapM label? with
        | none => none
        | some labels => if isBidi labels && !labels.all bidiRule then none else some labels

/-- The normal form of a domain name; `none` if the name is not allowed. -/
def normalize? (name : List Char) : Option (List Char) :=
  (labels? name).map fun labels => ['.'].intercalate labels

end SwiftMacro.Domain
