import Backdate.Author

/-!
# Stamps

Who made a commit, and when. A stamp reaches git as six variables: its date stands
for both dates, and the author and the committer are told apart, though a replay
has one identity sign as both.
-/

namespace Backdate

/-- The author and the committer of a step that writes history. -/
structure Signers where
  author : Identity
  committer : Identity
  deriving DecidableEq, Repr

/-- One identity signs as both. -/
instance : Coe Identity Signers := ⟨fun i => ⟨i, i⟩⟩

/-- The signers and the date of one step that writes history. -/
structure Stamp where
  signers : Signers
  date : String
  deriving DecidableEq, Repr

/-- The identity that a stamp is shown with. -/
def Stamp.identity (s : Stamp) : Identity := s.signers.author

/-- The variables that carry a stamp. -/
def Stamp.environment (s : Stamp) : List (String × String) :=
  [("GIT_AUTHOR_NAME", s.signers.author.name),
   ("GIT_AUTHOR_EMAIL", s.signers.author.email),
   ("GIT_COMMITTER_NAME", s.signers.committer.name),
   ("GIT_COMMITTER_EMAIL", s.signers.committer.email),
   ("GIT_AUTHOR_DATE", s.date),
   ("GIT_COMMITTER_DATE", s.date)]

end Backdate
