import MailMarkup.Background.Color
import MailMarkup.CommandLine.LogFolder
import MailMarkup.CommandLine.Session
import MailMarkup.Document.Shell
import MailMarkup.Files.Document
import MailMarkup.HiddenText
import MailMarkup.Image.Opening
import MailMarkup.Link
import MailMarkup.Main
import MailMarkup.Markup.Style
import MailMarkup.Proofs.Background.ImageCalls
import MailMarkup.Proofs.CommandLine.Delivery
import MailMarkup.Proofs.Document.Completeness
import MailMarkup.Proofs.Document.Fragments
import MailMarkup.Proofs.Files.Exporting
import MailMarkup.Proofs.Files.FileNames
import MailMarkup.Proofs.Files.Saving
import MailMarkup.Proofs.HiddenText.HiddenRow
import MailMarkup.Proofs.HiddenText.Injecting
import MailMarkup.Proofs.Image.AltWords
import MailMarkup.Proofs.Image.Rebuilding
import MailMarkup.Proofs.Link.OwnParameters
import MailMarkup.Proofs.Link.SpecialLinks
import MailMarkup.Proofs.Link.Tagging
import MailMarkup.Proofs.Markup.AttributeChanges
import MailMarkup.Proofs.Markup.AttributeRevision
import MailMarkup.Proofs.Markup.AttributeSpelling
import MailMarkup.Proofs.Markup.StyleDivision
import MailMarkup.Proofs.Markup.StyleMerging
import MailMarkup.Proofs.Markup.StylePrecedence
import MailMarkup.Proofs.Run.AltUniqueness
import MailMarkup.Proofs.Run.Comments
import MailMarkup.Proofs.Run.FailSoft
import MailMarkup.Proofs.Run.Reformatting
import MailMarkup.Proofs.Run.TagReplacement
import MailMarkup.Proofs.Spacing.Protection
import MailMarkup.Proofs.Spacing.Trimming
import MailMarkup.Proofs.Table.Bracketing
import MailMarkup.Proofs.Table.Columns
import MailMarkup.Proofs.Table.Heights
import MailMarkup.Proofs.Table.ImageCells
import MailMarkup.Proofs.Table.NormalForm
import MailMarkup.Proofs.Table.TableTag
import MailMarkup.Proofs.Table.TableTree
import MailMarkup.Proofs.Text.Excerpts
import MailMarkup.Proofs.Text.Splicing
import MailMarkup.Report.Content
import MailMarkup.Run.Duration
import MailMarkup.Run.Format
import MailMarkup.Settings
import MailMarkup.Spacing.Tidy
import MailMarkup.Table.Column
import MailMarkup.Table.Opening
import MailMarkup.Text.Blank
import MailMarkup.Text.Case
import MailMarkup.Text.Codepage
import MailMarkup.Text.Digit
import MailMarkup.Text.Escape
import MailMarkup.Text.Excerpt
import MailMarkup.Text.Quoted
import MailMarkup.Text.Scan
import MailMarkup.Text.Splice
import MailMarkup.Text.Utf8
import MailMarkup.Text.WordChar
