import MailMarkup.CommandLine.Arguments

namespace MailMarkup.CommandLine

open Text

def commandName : Text := "email-formatter".toList

def lines (ls : List String) : Text := ls.flatMap fun l => l.toList ++ ['\n']

def usage : Text := lines [
  "usage: email-formatter [-h] [-o OUTPUT] [--image-base-url IMAGE_BASE_URL]",
  "                       [--preheader PREHEADER] [--balance-text BALANCE_TEXT]",
  "                       [--utm-medium UTM_MEDIUM] [--utm-campaign UTM_CAMPAIGN]",
  "                       [--responsive] [--width \x7b600,650\x7d] [--wrap-columns]",
  "                       [--verbose]",
  "                       input"]

def help : Text := usage ++ lines [
  "",
  "Rewrite exported HTML into an email-client-safe template.",
  "",
  "positional arguments:",
  "  input                 Source HTML file, or - to read from stdin",
  "",
  "options:",
  "  -h, --help            show this help message and exit",
  "  -o OUTPUT, --output OUTPUT",
  "                        Where to write the formatted HTML (stdout when",
  "                        omitted)",
  "  --image-base-url IMAGE_BASE_URL",
  "                        Absolute URL prefixed to relative image paths",
  "  --preheader PREHEADER",
  "                        Inbox preview text",
  "  --balance-text BALANCE_TEXT",
  "                        Hidden text that balances the image-to-text ratio",
  "  --utm-medium UTM_MEDIUM",
  "                        utm_medium added to links",
  "  --utm-campaign UTM_CAMPAIGN",
  "                        utm_campaign added to links",
  "  --responsive          Use width=100% with a max-width instead of a fixed",
  "                        width",
  "  --width \x7b600,650\x7d     Container width in pixels",
  "  --wrap-columns        Nest multi-column rows in their own tables",
  "  --verbose             Enable debug logging on the console"]

def UsageError.report (e : UsageError) : Text :=
  usage ++ commandName ++ ": error: ".toList ++ e.message ++ ['\n']

end MailMarkup.CommandLine
