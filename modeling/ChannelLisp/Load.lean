import ChannelLisp.FileTree
import ChannelLisp.Session

/-!
Loading files into a session.
-/

namespace ChannelLisp

/-- Evaluates the text of a file, labelled with its path and without printing the value. An
error of evaluation is reported to the sink; only a file that cannot be read is a fault. -/
def Session.load (s : Session) (path : String) (content : Except FileFault String) :
    Except FileFault (Session × Outcome Unit) :=
  content.map fun text => s.printSource text path false

end ChannelLisp
