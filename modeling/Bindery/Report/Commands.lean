import Bindery.Report.Notice
import Bindery.Run.Listing

/-!
# Reports on the commands of a project

Every command by its signature. A command whose synopsis does not start with its stem is shown with
the stem as well.
-/

namespace Bindery.Report
set_option autoImplicit false

open Run (Listing)

/-- A text up to its first space. -/
def firstWord (text : String) : String :=
  String.ofList (text.toList.takeWhile (· != ' '))

/-- A command, given by its stem and signature. -/
def commandItem (entry : String × String) : Notice :=
  if firstWord entry.2 = entry.1 then .item entry.2
  else .item (entry.2 ++ "  (documented as " ++ entry.1 ++ ")")

/-- The report on a listing. -/
def listingNotices (listing : Listing) : List Notice :=
  (if listing.entries.isEmpty then [.plain "No commands found"]
    else .heading "Commands" :: listing.entries.map commandItem) ++
    listed "Unbindable documents" (listing.skipped.map .removed)

end Bindery.Report
