import Treewalk.Token.Segment
import Treewalk.Diagnostic.Excerpt
import Treewalk.Numeral.Shortest
import Treewalk.Tree.Dump
import Treewalk.Tree.Parse
import Treewalk.Scope
import Treewalk.Failure
import Treewalk.Session
import Treewalk.Command
import Treewalk.Main
import Treewalk.Proofs.Parser.Fuel
import Treewalk.Proofs.Parser.Ends
import Treewalk.Proofs.Parser.Grammar
import Treewalk.Proofs.Parser.Sound
import Treewalk.Proofs.Parser.Complete
import Treewalk.Proofs.Parser.Relabel
import Treewalk.Proofs.Parser.Yield
import Treewalk.Proofs.Parser.Exact
import Treewalk.Proofs.Scope.Numbering
import Treewalk.Proofs.Scope.Check
import Treewalk.Proofs.Scope.Resolved
import Treewalk.Proofs.Machine.Frames
import Treewalk.Proofs.Machine.Typing
import Treewalk.Proofs.Machine.Halts
import Treewalk.Proofs.Machine.Preservation
import Treewalk.Proofs.Session.Agreement
import Treewalk.Proofs.Session.Outcome
import Treewalk.Proofs.Token.Segments
import Treewalk.Proofs.Token.Tiling
import Treewalk.Proofs.Scope.Uses
import Treewalk.Proofs.Machine.Protection
import Treewalk.Proofs.Session.Protection
import Treewalk.Proofs.Token.Lines
import Treewalk.Proofs.Tree.Like
import Treewalk.Proofs.Machine.Like
import Treewalk.Proofs.Machine.Lockstep
import Treewalk.Proofs.Parser.Shift
import Treewalk.Proofs.Parser.Lines
import Treewalk.Proofs.Scope.Relabel
import Treewalk.Proofs.Session.Alike
import Treewalk.Proofs.Session.Refused
import Treewalk.Proofs.Session.Whole
import Treewalk.Proofs.Parser.Cut
import Treewalk.Proofs.Store.Bisimilar
import Treewalk.Proofs.Machine.Tidy
import Treewalk.Proofs.Session.Tidy
import Treewalk.Proofs.Text.Quoted
import Treewalk.Proofs.Token.Spelling
import Treewalk.Proofs.Tree.Sexp
import Treewalk.Proofs.Tree.Essence
import Treewalk.Proofs.Tree.Reading
import Treewalk.Proofs.Session.Dump
import Treewalk.Proofs.Scope.Steps
import Treewalk.Proofs.Scope.Legal
import Treewalk.Proofs.Scope.Mentions
import Treewalk.Proofs.Scope.Report
import Treewalk.Proofs.Scope.Rename
import Treewalk.Proofs.Parser.Bounds
import Treewalk.Proofs.Store.Unfolding
import Treewalk.Proofs.Parser.Unseen
import Treewalk.Proofs.Parser.Block
import Treewalk.Proofs.Tree.Prune
import Treewalk.Proofs.Scope.Pruned
import Treewalk.Proofs.Machine.Prune
import Treewalk.Proofs.Scope.Flagged
import Treewalk.Proofs.Session.DeadCode
import Treewalk.Proofs.Text.Utf8
import Treewalk.Proofs.Token.Boundary
import Treewalk.Proofs.Token.Places
import Treewalk.Proofs.Token.Respelling
import Treewalk.Proofs.Token.Longest
import Treewalk.Proofs.Token.Comments
import Treewalk.Proofs.Token.Strings
import Treewalk.Proofs.Session.Dialogue
import Treewalk.Proofs.Store.Growth
import Treewalk.Proofs.Machine.Growth
import Treewalk.Proofs.Machine.Realm
import Treewalk.Proofs.Machine.Confined
import Treewalk.Proofs.Machine.Part
import Treewalk.Proofs.Machine.Building
import Treewalk.Proofs.Session.Creation
import Treewalk.Proofs.Text.Lines
import Treewalk.Proofs.Diagnostic.Excerpt
import Treewalk.Proofs.Session.Standard
import Treewalk.Proofs.Session.Sites
import Treewalk.Proofs.Machine.Table
import Treewalk.Proofs.Machine.Hidden
import Treewalk.Proofs.Machine.Direct
import Treewalk.Proofs.Session.Honest
import Treewalk.Proofs.Session.Lists
import Treewalk.Proofs.Scope.Identities
import Treewalk.Proofs.Diagnostic.Shown
import Treewalk.Proofs.Numeral.Readings
import Treewalk.Proofs.Session.Compound
import Treewalk.Proofs.Store.Maps
