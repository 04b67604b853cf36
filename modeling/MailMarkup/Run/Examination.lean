import MailMarkup.Report.Analysis
import MailMarkup.Run.Format

namespace MailMarkup.Run

def formatReporting {m : Type → Type} [Monad m] (report : Progress → m Unit) (c : Config)
    (source : Source) : m (Except SourceError Result) :=
  formatWith Report.analyze report (fun s t => pure (s.apply c t)) Fault.message c source

def format (c : Config) (source : Text) : Except SourceError Result :=
  formatBy Report.analyze c source

end MailMarkup.Run
