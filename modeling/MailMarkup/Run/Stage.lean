import MailMarkup.Document.Shell
import MailMarkup.HiddenText
import MailMarkup.Image.Opening
import MailMarkup.Spacing.Tidy
import MailMarkup.Table.Column

namespace MailMarkup.Run

open Text

inductive Stage where
  | stripHeights
  | normalizeTables
  | injectPreheader
  | injectBalanceText
  | enhanceImages
  | collapseImageCells
  | wrapColumns
  | cleanColspans
  | tagLinks
  | tidyWhitespace
  | propagateBackgrounds
  | wrapDocument
  deriving DecidableEq, Repr

namespace Stage

def name : Stage → Text
  | stripHeights => "strip_heights".toList
  | normalizeTables => "normalize_tables".toList
  | injectPreheader => "inject_preheader".toList
  | injectBalanceText => "inject_balance_text".toList
  | enhanceImages => "enhance_images".toList
  | collapseImageCells => "collapse_image_cells".toList
  | wrapColumns => "wrap_columns".toList
  | cleanColspans => "clean_colspans".toList
  | tagLinks => "tag_links".toList
  | tidyWhitespace => "tidy_whitespace".toList
  | propagateBackgrounds => "propagate_backgrounds".toList
  | wrapDocument => "wrap_document".toList

def all : List Stage := [
  stripHeights, normalizeTables, injectPreheader, injectBalanceText, enhanceImages,
  collapseImageCells, wrapColumns, cleanColspans, tagLinks, tidyWhitespace,
  propagateBackgrounds, wrapDocument]

theorem mem_all (s : Stage) : s ∈ all := by cases s <;> decide

def ofName? (t : Text) : Option Stage := all.find? (·.name == t)

/-- The stages of a configuration: columns are wrapped only on demand. -/
def stagesOf (c : Config) : List Stage := all.filter fun s => s != wrapColumns || c.wrapColumns

def apply (c : Config) : Stage → Text → Except Fault Text
  | stripHeights, html => Table.stripHeights html
  | normalizeTables, html => Table.normalize c.layout html
  | injectPreheader, html => .ok (HiddenText.injectPreheader html c.preheader)
  | injectBalanceText, html => .ok (HiddenText.injectBalance html c.balance)
  | enhanceImages, html => Image.enhance c html
  | collapseImageCells, html => Table.collapseImageCells html
  | wrapColumns, html => .ok (Table.wrapColumns c.layout html)
  | cleanColspans, html => .ok (Table.removeIdleSpans html)
  | tagLinks, html => .ok (Link.tagAll c.campaign html)
  | tidyWhitespace, html => .ok (Spacing.tidy html)
  | propagateBackgrounds, html => Background.propagate html
  | wrapDocument, html => Document.complete html []

end Stage

def trace (c : Config) : List Stage → Text → Except Fault (List (Stage × Text))
  | [], _ => .ok []
  | s :: ss, html => do
    let html ← s.apply c html
    return (s, html) :: (← trace c ss html)

end MailMarkup.Run
