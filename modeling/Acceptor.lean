import Acceptor.Bench
import Acceptor.Main
import Acceptor.Proofs.Rows.Bench
import Acceptor.Proofs.Shell.SaveSource
import Acceptor.Proofs.Visit.Course
import Acceptor.Proofs.Shell.SourceScript
import Acceptor.Proofs.Visit.Walk
import Acceptor.Proofs.Visit.Overflow
import Acceptor.Proofs.Shell.Turn
import Acceptor.Proofs.Shell.Coherence
import Acceptor.Proofs.Shell.Escape
import Acceptor.Proofs.Shell.Match
import Acceptor.Proofs.Shell.Perform
import Acceptor.Proofs.Shell.Failure
import Acceptor.Proofs.Shell.Writing
import Acceptor.Proofs.Visit.Step
import Acceptor.Proofs.Bench
import Acceptor.Proofs.Shell.Quoted
import Acceptor.Proofs.BoundedStack.Contents
import Acceptor.Proofs.Visit.Path
import Acceptor.Proofs.Table.Dot
import Acceptor.Proofs.Shell.Inline
import Acceptor.Proofs.CharClass.ParseError
import Acceptor.Proofs.Visit.Extension
import Acceptor.Proofs.Shell.Completion
import Acceptor.Proofs.Shell.Whereabouts
