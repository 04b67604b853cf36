import MailMarkup.Entity.Reference
import MailMarkup.Text.Quoted

namespace MailMarkup.Report

open Text

inductive Rejection where
  | unknownSection (keyword : Text)
  | unnamedSection (source : Text)
  | fault (f : Fault)
  deriving DecidableEq

def Rejection.cause : Rejection → Text
  | unknownSection keyword =>
    "unknown status keyword ".toList ++ quoted keyword ++ " in marked section".toList
  | unnamedSection source => "expected name token at ".toList ++ quoted source
  | fault f => f.message

def Rejection.message : Rejection → Text
  | fault f => f.message
  | r =>
    ("The markup you provided was rejected by the parser. Trying a different parser or a " ++
      "different encoding may help.\n\nOriginal exception(s) from parser:\n " ++
      "AssertionError: ").toList ++ r.cause

structure Content where
  images : Nat
  missingAlts : Nat
  duplicateAlts : List Text
  links : Nat
  taggedLinks : Nat
  textLength : Nat
  tables : Nat
  deriving DecidableEq, Repr

def textPerImage : Nat := 100

namespace Content

def isImageHeavy (c : Content) : Bool := c.images != 0 && c.textLength < textPerImage * c.images

def missingAltsText (c : Content) : Text :=
  ofNat c.missingAlts ++ " image(s) without alt text".toList

def duplicateAltsText (c : Content) : Text :=
  "Duplicate alt text: ".toList ++ join ", ".toList c.duplicateAlts

def imageHeavyText (c : Content) : Text :=
  "Image-heavy email: ".toList ++ ofNat c.textLength ++ " visible characters for ".toList ++
    ofNat c.images ++ " image(s)".toList

def findings (c : Content) : List Text :=
  (if c.missingAlts = 0 then [] else [c.missingAltsText]) ++
  (if c.duplicateAlts.isEmpty then [] else [c.duplicateAltsText]) ++
  (if c.isImageHeavy then [c.imageHeavyText] else [])

def summary (c : Content) : Text :=
  ofNat c.tables ++ " tables, ".toList ++ ofNat c.images ++ " images, ".toList ++
    ofNat c.links ++ " links (".toList ++ ofNat c.taggedLinks ++ " tagged), ".toList ++
    ofNat c.textLength ++ " chars of text".toList

end Content

/-- The examination of a document, which follows HTML as another library reads it. -/
abbrev Analysis := Text → Except Rejection Content

end MailMarkup.Report
