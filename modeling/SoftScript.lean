import SoftScript.Main
import SoftScript.Proofs.Printing.Faithful
import SoftScript.Proofs.Run.Local
import SoftScript.Proofs.Run.Declared
import SoftScript.Proofs.Run.Restored
import SoftScript.Proofs.Likeness.Grouping
import SoftScript.Proofs.Likeness.Layout
import SoftScript.Proofs.Run.Sound
import SoftScript.Proofs.Run.Loopless
import SoftScript.Proofs.Joining.Sessions
import SoftScript.Proofs.Scanning.Offsets
import SoftScript.Proofs.Scanning.Lossless
import SoftScript.Proofs.Grammar.Keeping
import SoftScript.Proofs.Scanning.Longest
import SoftScript.Proofs.Grammar.Accounted
import SoftScript.Proofs.Grammar.Shown
import SoftScript.Proofs.Grammar.Boundary
import SoftScript.Proofs.Likeness.Compound
import SoftScript.Proofs.Session.Located
import SoftScript.Proofs.Grammar.Placed
import SoftScript.Proofs.Heap.Members
import SoftScript.Proofs.Heap.Written
import SoftScript.Proofs.Run.Blind
import SoftScript.Proofs.Run.ForLoops
import SoftScript.Proofs.Run.Account
import SoftScript.Proofs.Run.Truncated
import SoftScript.Proofs.Run.Chronicle
import SoftScript.Proofs.Run.Access
import SoftScript.Proofs.Session.Shaped
import SoftScript.Proofs.Session.Named
import SoftScript.Proofs.Grammar.Recovery
import SoftScript.Proofs.Run.Lexical
import SoftScript.Proofs.Run.ListMethods
import SoftScript.Proofs.Run.ListOperators
import SoftScript.Proofs.Run.Arithmetic
import SoftScript.Proofs.Run.Passive
import SoftScript.Proofs.Run.Calls
import SoftScript.Proofs.Scanning.Spaced
import SoftScript.Proofs.Grammar.Building
import SoftScript.Proofs.Grammar.Trees
import SoftScript.Proofs.Scanning.Literals
import SoftScript.Proofs.Prompt.Conversation
