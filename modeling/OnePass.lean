import OnePass.Files.Change
import OnePass.Files.Host
import OnePass.Main
import OnePass.Proofs.Severed.Program
import OnePass.Proofs.Progress.Program
import OnePass.Proofs.Folding.Program
import OnePass.Proofs.Pointers.Program
import OnePass.Proofs.Printed
import OnePass.Proofs.Closing.Program
import OnePass.Proofs.Compilation.Parallel
import OnePass.Proofs.Compilation.Session
import OnePass.Proofs.Files.Handles
import OnePass.Proofs.Files.Watching
import OnePass.Proofs.Config
import OnePass.Proofs.Isolation.Statement
import OnePass.Proofs.Reached.OwnName
import OnePass.Proofs.Emission.LocalNames
import OnePass.Proofs.Removal.Procedure
import OnePass.Proofs.Emission.Units
import OnePass.Proofs.Elaboration.Bodies
import OnePass.Proofs.Reporting.Recovery
import OnePass.Proofs.Comments
import OnePass.Proofs.Excerpt
import OnePass.Proofs.Files.Replacing
import OnePass.Proofs.Precedence
import OnePass.Proofs.Nesting
