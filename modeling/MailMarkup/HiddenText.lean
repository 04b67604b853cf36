import MailMarkup.Markup.Tag
import MailMarkup.Text.Escape

namespace MailMarkup.HiddenText

open Text Markup

def style : Text :=
  ("display:none !important;font-size:1px;line-height:1px;max-height:0;max-width:0;" ++
    "opacity:0;overflow:hidden;mso-hide:all;visibility:hidden;").toList

def rowOpening : Text :=
  "<tr><td style=\"padding:0;\"><div style=\"".toList ++ style ++ "\">".toList

def rowClosing : Text := "</div></td></tr>".toList

def row (t : Text) : Text := rowOpening ++ escapeHtml t ++ rowClosing

def isHiding (t : Tag) : Bool := !t.closing && occursIn "mso-hide".toList (lower t.attrs)

def isPresent (html : Text) : Bool :=
  (tokens ["div".toList, "span".toList, "td".toList] html).any (isHiding ·.toTag)

def insertBehind (place : Option Token) (html t : Text) : Text :=
  match place with
  | some k => html.take k.stop ++ row (trim t) ++ html.drop k.stop
  | none => html

def injectPreheader (html t : Text) : Text :=
  if allBlank t then html else insertBehind (findOpening? html "table".toList) html t

def balancePlace? (html : Text) : Option Token :=
  findTag? html "tr".toList true 0 <|> findOpening? html "table".toList

def injectBalance (html t : Text) : Text :=
  if allBlank t then html else insertBehind (balancePlace? html) html t

end MailMarkup.HiddenText
