import MailMarkup.Layout
import MailMarkup.Link

namespace MailMarkup

structure Config where
  imageBase : Text
  preheader : Text
  balance : Text
  campaign : Link.Campaign
  layout : Layout
  wrapColumns : Bool
  deriving DecidableEq, Repr

end MailMarkup
